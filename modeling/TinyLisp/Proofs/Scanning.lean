import TinyLisp.Token
import TinyLisp.Value.Printer

/-!
# Scanning what has been printed

The printer puts a backslash in front of every character that would end a name
or a string.  The scan undoes this, whatever the tokens before and after.

There are three groups.

* `scan_quoteString` and `scan_escapeSymbol`: a scan over one string literal and
  over one name.
* `Lexes`: a text that is cut into the same tokens wherever it stands.  Such texts
  may be put next to each other with a space, and into parentheses.
* `tokenize_of_lexes`: the tokens of such a text on its own.
-/

namespace TinyLisp.Lexer

/-! ## Strings and names -/

@[simp] theorem scan_nil (s : Lexer) : s.scan [] = s := rfl

@[simp] theorem scan_cons (s : Lexer) (c : Char) (text : List Char) :
    s.scan (c :: text) = (s.step c).scan text := rfl

/-- Escapes are undone inside a string. -/
theorem scan_escapeInString (found : List Token) (pending text : List Char) :
    (Lexer.mk found pending true false).scan (text.flatMap escapeInString) =
      ⟨found, text.reverse ++ pending, true, false⟩ := by
  induction text generalizing pending with
  | nil => rfl
  | cons c text ih =>
    have hstep : (Lexer.mk found pending true false).scan (escapeInString c) =
        ⟨found, c :: pending, true, false⟩ := by
      rw [escapeInString]
      by_cases hc : c = '\\' ∨ c = '"'
      · rw [if_pos hc]
        simp [step]
      · rw [if_neg hc]
        simp only [not_or] at hc
        simp [step, hc]
    rw [List.flatMap_cons, scan_append, hstep, ih]
    simp

/-- Escapes are undone in a name. -/
theorem scan_escapeSymbol (found : List Token) (pending name : List Char) :
    (Lexer.mk found pending false false).scan (escapeSymbol name) =
      ⟨found, name.reverse ++ pending, false, false⟩ := by
  induction name generalizing pending with
  | nil => rfl
  | cons c name ih =>
    have hstep : (Lexer.mk found pending false false).scan (escapeInSymbol c) =
        ⟨found, c :: pending, false, false⟩ := by
      rw [escapeInSymbol]
      by_cases hc : isDelimiter c = true
      · rw [if_pos hc]
        simp [step]
      · rw [if_neg hc]
        simp only [isDelimiter, Bool.or_eq_true, beq_iff_eq, not_or] at hc
        simp [step, isSeparator, separators, hc]
    rw [escapeSymbol, List.flatMap_cons, scan_append, hstep]
    have ih := ih (c :: pending)
    rw [escapeSymbol] at ih
    rw [ih]
    simp

/-! ## Texts that keep their tokens -/

/-- The state between two tokens. -/
def between (found : List Token) : Lexer :=
  ⟨found, [], false, false⟩

/-- The text is cut into just these tokens between any others.  The last one may
still be pending at its end. -/
def Lexes (text : List Char) (tokens : List Token) : Prop :=
  ∀ found, ∃ found' pending, (between found).scan text = ⟨found', pending, false, false⟩ ∧
    (Lexer.mk found' pending false false).flush = between (tokens.reverse ++ found)

theorem lexes_nil : Lexes [] [] :=
  fun found => ⟨found, [], rfl, rfl⟩

/-- A string literal is cut into the one string. -/
theorem lexes_quoteString (text : List Char) :
    Lexes (quoteString text) [.string (String.ofList text)] := by
  intro found
  refine ⟨.string (String.ofList text) :: found, [], ?_, rfl⟩
  have hopen : (between found).step '"' = ⟨found, [], true, false⟩ := by
    simp [step, between, flush, isBlankText]
  rw [quoteString, List.cons_append, scan_cons, hopen, scan_append, scan_escapeInString]
  simp [step, closeString]

/-- The token that a name is cut into, if it is more than white space. -/
def atomsOf (name : List Char) : List Token :=
  if isBlankText name then [] else [.atom (String.ofList name)]

/-- A name is cut into the one atom. -/
theorem lexes_escapeSymbol (name : List Char) : Lexes (escapeSymbol name) (atomsOf name) := by
  intro found
  refine ⟨found, name.reverse, ?_, ?_⟩
  · rw [between, scan_escapeSymbol, List.append_nil]
  · have hblank : isBlankText name.reverse = isBlankText name := by
      simp [isBlankText]
    rw [flush, atomsOf]
    simp only [hblank, List.reverse_reverse]
    split <;> rfl

/-- A space keeps the tokens of two texts apart. -/
theorem lexes_space {front rest : List Char} {tokens tokens' : List Token}
    (hfront : Lexes front tokens) (hrest : Lexes rest tokens') :
    Lexes (front ++ ' ' :: rest) (tokens ++ tokens') := by
  intro found
  obtain ⟨found₁, pending₁, hscan₁, hflush₁⟩ := hfront found
  obtain ⟨found₂, pending₂, hscan₂, hflush₂⟩ := hrest (tokens.reverse ++ found)
  refine ⟨found₂, pending₂, ?_, ?_⟩
  · have hspace : (Lexer.mk found₁ pending₁ false false).step ' ' =
        (Lexer.mk found₁ pending₁ false false).flush := by
      simp [step, isSeparator, separators]
    rw [scan_append, hscan₁, scan_cons, hspace, hflush₁, hscan₂]
  · rw [hflush₂, List.reverse_append, List.append_assoc]

/-- Parentheses are tokens of their own. -/
theorem lexes_parenthesised {text : List Char} {tokens : List Token} (h : Lexes text tokens) :
    Lexes (parenthesised text) (.opening :: (tokens ++ [.closing])) := by
  intro found
  obtain ⟨found', pending, hscan, hflush⟩ := h (.opening :: found)
  refine ⟨.closing :: (tokens.reverse ++ .opening :: found), [], ?_, ?_⟩
  · have hopen : (between found).step '(' = between (.opening :: found) := by
      simp [step, between, flush, isBlankText, emit]
    have hclose : (Lexer.mk found' pending false false).step ')' =
        (Lexer.mk found' pending false false).flush.emit .closing := by
      simp [step]
    rw [parenthesised, List.cons_append, scan_cons, hopen, scan_append, hscan, scan_cons, hclose,
      hflush]
    rfl
  · simp [flush, between, isBlankText]

/-! ## A text on its own -/

theorem tokenize_of_lexes {text : List Char} {tokens : List Token} (h : Lexes text tokens) :
    tokenize (String.ofList text) = tokens := by
  obtain ⟨found, pending, hscan, hflush⟩ := h []
  have hstart : start = between [] := rfl
  rw [tokenize, String.toList_ofList, hstart, hscan, finish, hflush]
  simp [between]

end TinyLisp.Lexer
