import TinyLisp.Number.Numeral

/-!
# The grammar of numerals

A numeral is an optional sign, digits with at most one point, and an optional
exponent.  This module states that grammar apart from the reading of numerals,
and says that just these texts are read.

There are three groups.

* `IsSign`, `IsMantissa`, `IsExponent` and `IsNumeral`: the grammar.
* `takeDigits_append` and `takeSign_append`: how far a run of digits and a sign
  reach.
* `isSome_read?`: a text is read as a number when it is a numeral, and only then.
-/

namespace TinyLisp

/-! ## The grammar -/

/-- Only digits, of any script. -/
def Digits (text : List Char) : Prop :=
  ∀ c ∈ text, (digitValue? c).isSome = true

/-- A sign, or none. -/
def IsSign (text : List Char) : Prop :=
  text = [] ∨ text = ['+'] ∨ text = ['-']

/-- Digits with at most one point among them or at an end. -/
inductive IsMantissa : List Char → Prop where
  | whole {whole : List Char} (hwhole : Digits whole) (hne : whole ≠ []) : IsMantissa whole
  | point {whole fraction : List Char} (hwhole : Digits whole) (hfraction : Digits fraction)
      (hne : whole ≠ [] ∨ fraction ≠ []) : IsMantissa (whole ++ '.' :: fraction)

/-- A mark, a sign and digits, or nothing. -/
inductive IsExponent : List Char → Prop where
  | absent : IsExponent []
  | present {mark : Char} {sign digits : List Char} (hmark : mark = 'e' ∨ mark = 'E')
      (hsign : IsSign sign) (hdigits : Digits digits) (hne : digits ≠ []) :
      IsExponent (mark :: (sign ++ digits))

/-- A whole text that is a number. -/
def IsNumeral (text : List Char) : Prop :=
  ∃ sign mantissa exponent, IsSign sign ∧ IsMantissa mantissa ∧ IsExponent exponent ∧
    text = sign ++ (mantissa ++ exponent)

/-! ## Runs of digits -/

/-- No digit stands at the front. -/
def EndsDigits (text : List Char) : Prop :=
  ∀ c rest, text = c :: rest → digitValue? c = none

theorem endsDigits_nil : EndsDigits [] := by
  intro c rest h
  cases h

theorem endsDigits_cons {c : Char} (hc : digitValue? c = none) (rest : List Char) :
    EndsDigits (c :: rest) := by
  intro c' rest' h
  cases h
  exact hc

/-- A run of digits is taken up to its end. -/
theorem takeDigits_append {front rest : List Char} (hfront : Digits front)
    (hrest : EndsDigits rest) :
    takeDigits (front ++ rest) = (front.filterMap digitValue?, rest) := by
  induction front with
  | nil =>
    match rest with
    | [] => rfl
    | c :: rest => simp [takeDigits, hrest c rest rfl]
  | cons c front ih =>
    obtain ⟨value, hvalue⟩ := Option.isSome_iff_exists.1 (hfront c (by simp))
    have ih := ih fun c hc => hfront c (by simp [hc])
    rw [List.cons_append, takeDigits, hvalue]
    simp only [ih, List.filterMap_cons, hvalue]

theorem takeDigits_all {text : List Char} (h : Digits text) :
    takeDigits text = (text.filterMap digitValue?, []) := by
  have := takeDigits_append h endsDigits_nil
  rwa [List.append_nil] at this

/-- Every text starts with a run of digits, which may be empty. -/
theorem exists_digits (text : List Char) :
    ∃ front rest, text = front ++ rest ∧ Digits front ∧ EndsDigits rest := by
  induction text with
  | nil => exact ⟨[], [], rfl, by simp [Digits], endsDigits_nil⟩
  | cons c text ih =>
    obtain ⟨front, rest, rfl, hfront, hrest⟩ := ih
    cases hc : digitValue? c with
    | none => exact ⟨[], _, rfl, by simp [Digits], endsDigits_cons hc _⟩
    | some value =>
      refine ⟨c :: front, rest, rfl, ?_, hrest⟩
      intro c' hc'
      rcases List.mem_cons.1 hc' with rfl | hc'
      · simp [hc]
      · exact hfront c' hc'

/-- A run of digits has as many values as digits. -/
theorem length_filterMap_digits {text : List Char} (h : Digits text) :
    (text.filterMap digitValue?).length = text.length := by
  rw [List.length_filterMap_eq_countP, List.countP_eq_length]
  exact h

theorem filterMap_digits_eq_nil {text : List Char} (h : Digits text) :
    text.filterMap digitValue? = [] ↔ text = [] := by
  rw [← List.length_eq_zero_iff, length_filterMap_digits h, List.length_eq_zero_iff]

/-! ## Signs -/

/-- No sign stands at the front. -/
def Unsigned (text : List Char) : Prop :=
  ∀ rest, text ≠ '+' :: rest ∧ text ≠ '-' :: rest

theorem takeSign_unsigned {text : List Char} (h : Unsigned text) :
    takeSign text = (false, text) := by
  rw [takeSign]
  · exact fun rest => (h rest).2
  · exact fun rest => (h rest).1

/-- A sign is taken where no other one follows. -/
theorem takeSign_append {sign rest : List Char} (hsign : IsSign sign) (hrest : Unsigned rest) :
    ∃ negative, takeSign (sign ++ rest) = (negative, rest) := by
  rcases hsign with rfl | rfl | rfl
  · exact ⟨false, takeSign_unsigned hrest⟩
  · exact ⟨false, rfl⟩
  · exact ⟨true, rfl⟩

/-- Every text starts with a sign, which may be absent. -/
theorem exists_sign (text : List Char) :
    ∃ sign, IsSign sign ∧ text = sign ++ (takeSign text).2 := by
  match text with
  | [] => exact ⟨[], .inl rfl, rfl⟩
  | c :: rest =>
    by_cases hminus : c = '-'
    · subst hminus
      exact ⟨['-'], .inr (.inr rfl), rfl⟩
    · by_cases hplus : c = '+'
      · subst hplus
        exact ⟨['+'], .inr (.inl rfl), rfl⟩
      · refine ⟨[], .inl rfl, ?_⟩
        rw [takeSign_unsigned]
        · rfl
        · intro rest'
          simp [hminus, hplus]

/-- Text that starts with digits has no sign. -/
theorem unsigned_digits {text : List Char} (h : Digits text) (hne : text ≠ []) (rest : List Char) :
    Unsigned (text ++ rest) := by
  match text with
  | [] => exact absurd rfl hne
  | c :: text =>
    have hc := h c (by simp)
    intro rest'
    constructor
    · intro heq
      rw [(List.cons.inj heq).1] at hc
      revert hc
      decide
    · intro heq
      rw [(List.cons.inj heq).1] at hc
      revert hc
      decide

namespace Numeral

/-! ## Reading numerals -/

theorem endsDigits_point (text : List Char) : EndsDigits ('.' :: text) :=
  endsDigits_cons (by decide) text

theorem endsDigits_mark {mark : Char} (h : mark = 'e' ∨ mark = 'E') (rest : List Char) :
    EndsDigits (mark :: rest) := by
  rcases h with rfl | rfl <;> exact endsDigits_cons (by decide) rest

theorem endsDigits_exponent {text : List Char} (h : IsExponent text) : EndsDigits text := by
  cases h with
  | absent => exact endsDigits_nil
  | present hmark => exact endsDigits_mark hmark _

theorem takeFraction_exponent {text : List Char} (h : IsExponent text) :
    takeFraction text = ([], text) := by
  cases h with
  | absent => rfl
  | present hmark => rcases hmark with rfl | rfl <;> rfl

/-- Behind a mark and a sign, digits make an exponent and nothing else does. -/
theorem isSome_readExponent? (text : List Char) :
    (readExponent? text).isSome = true ↔ IsExponent text := by
  match text with
  | [] => exact ⟨fun _ => .absent, fun _ => rfl⟩
  | mark :: text =>
    constructor
    · intro h
      by_cases hmark : mark = 'e' ∨ mark = 'E'
      · obtain ⟨sign, hsign, htext⟩ := exists_sign text
        obtain ⟨digits, rest, hsplit, hdigits, hrest⟩ := exists_digits (takeSign text).2
        rw [readExponent?, if_pos hmark] at h
        simp only at h
        rw [hsplit, takeDigits_append hdigits hrest] at h
        cases hvalues : digits.filterMap digitValue? with
        | nil => simp [hvalues] at h
        | cons value values =>
          match rest with
          | [] =>
            rw [htext, hsplit, List.append_nil]
            refine .present hmark hsign hdigits ?_
            rintro rfl
            cases hvalues
          | c :: rest => simp [hvalues] at h
      · rw [readExponent?, if_neg hmark] at h
        cases h
    · intro h
      cases h with
      | present hmark hsign hdigits hne =>
        rename_i sign digits
        have hunsigned := unsigned_digits hdigits hne []
        rw [List.append_nil] at hunsigned
        obtain ⟨negative, hnegative⟩ := takeSign_append hsign hunsigned
        rw [readExponent?, if_pos hmark, hnegative]
        simp only [takeDigits_all hdigits]
        have hvalues := mt (filterMap_digits_eq_nil hdigits).1 hne
        cases h : digits.filterMap digitValue? with
        | nil => exact absurd h hvalues
        | cons value values => rfl

/-- What is read behind the sign: a run of digits, perhaps a point and another
run, and an exponent. -/
theorem isSome_read?_of_takeSign {text rest whole tail : List Char} (fraction : List Char)
    {negative : Bool}
    (hsign : takeSign text = (negative, rest)) (hwhole : Digits whole) (hfraction : Digits fraction)
    (htail : EndsDigits tail)
    (hrest : rest = whole ++ '.' :: (fraction ++ tail) ∨
      fraction = [] ∧ rest = whole ++ tail ∧ takeFraction tail = ([], tail)) :
    (read? text).isSome = true ↔ (whole ≠ [] ∨ fraction ≠ []) ∧ IsExponent tail := by
  have hread : read? text =
      if (whole.filterMap digitValue?).isEmpty && (fraction.filterMap digitValue?).isEmpty then none
      else (readExponent? tail).map fun exponent =>
        ⟨negative, numberOfDigits (whole.filterMap digitValue? ++ fraction.filterMap digitValue?),
          exponent - (fraction.filterMap digitValue?).length⟩ := by
    rw [read?, hsign]
    rcases hrest with rfl | ⟨rfl, rfl, hpoint⟩
    · simp only [takeDigits_append hwhole (endsDigits_point _), takeFraction,
        takeDigits_append hfraction htail]
    · simp only [takeDigits_append hwhole htail, hpoint]
      rfl
  rw [hread]
  by_cases hne : whole = [] ∧ fraction = []
  · obtain ⟨rfl, rfl⟩ := hne
    simp
  · rw [if_neg, Option.isSome_map, isSome_readExponent?]
    · have : whole ≠ [] ∨ fraction ≠ [] := by
        rwa [ne_eq, ne_eq, ← Classical.not_and_iff_not_or_not]
      simp [this]
    · simpa [List.isEmpty_iff, filterMap_digits_eq_nil hwhole,
        filterMap_digits_eq_nil hfraction] using hne

/-- A text is read as a number when it is a numeral, and only then. -/
theorem isSome_read? (text : List Char) : (read? text).isSome = true ↔ IsNumeral text := by
  constructor
  · intro h
    obtain ⟨sign, hsign, htext⟩ := exists_sign text
    have hsplitSign : takeSign text = ((takeSign text).1, (takeSign text).2) := rfl
    obtain ⟨whole, rest, hsplit, hwhole, hrest⟩ := exists_digits (takeSign text).2
    by_cases hpoint : ∃ after, rest = '.' :: after
    · obtain ⟨after, rfl⟩ := hpoint
      obtain ⟨fraction, tail, rfl, hfraction, htail⟩ := exists_digits after
      obtain ⟨hne, hexponent⟩ :=
        (isSome_read?_of_takeSign fraction hsplitSign hwhole hfraction htail (.inl hsplit)).1 h
      refine ⟨sign, _, tail, hsign, .point hwhole hfraction hne, hexponent, ?_⟩
      rw [htext, hsplit]
      simp
    · have hfraction : takeFraction rest = ([], rest) := by
        rw [takeFraction]
        intro after heq
        exact hpoint ⟨after, heq⟩
      obtain ⟨hne, hexponent⟩ :=
        (isSome_read?_of_takeSign [] hsplitSign hwhole (by simp [Digits]) hrest
          (.inr ⟨rfl, hsplit, hfraction⟩)).1 h
      refine ⟨sign, whole, rest, hsign, .whole hwhole (by simpa using hne), hexponent, ?_⟩
      rw [htext, hsplit]
  · rintro ⟨sign, mantissa, exponent, hsign, hmantissa, hexponent, rfl⟩
    have htail := endsDigits_exponent hexponent
    cases hmantissa with
    | whole hwhole hne =>
      obtain ⟨negative, hnegative⟩ := takeSign_append hsign (unsigned_digits hwhole hne exponent)
      exact (isSome_read?_of_takeSign [] hnegative hwhole (by simp [Digits]) htail
        (.inr ⟨rfl, rfl, takeFraction_exponent hexponent⟩)).2 ⟨.inl hne, hexponent⟩
    | point hwhole hfraction hne =>
      rename_i whole fraction
      have hunsigned : Unsigned (whole ++ '.' :: (fraction ++ exponent)) := by
        by_cases hempty : whole = []
        · subst hempty
          intro rest
          simp
        · exact unsigned_digits hwhole hempty _
      obtain ⟨negative, hnegative⟩ := takeSign_append hsign hunsigned
      rw [List.append_assoc, List.cons_append]
      exact (isSome_read?_of_takeSign fraction hnegative hwhole hfraction htail (.inl rfl)).2
        ⟨hne, hexponent⟩

end Numeral

end TinyLisp
