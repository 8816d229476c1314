import TinyLisp.Proofs.Composition
import TinyLisp.Proofs.Lines

/-!
# The characters of a source

The lexer cuts a source at white space and gives every other character to one token, in
the order of the source.  Only the marks of the notation are left out: the backslashes that
escape and the marks around strings.

There are three groups.

* `dense` and `content`: a text without its white space, and without the marks.
* `Lexer.written`: the characters that a scan has taken and kept.  `dense_written_step` says
  what one character adds to them, and `dense_written_scan` what a text adds.
* `tokenize_conserves`: separated texts, and all characters of any source.
-/

namespace TinyLisp

/-! ## Texts -/

/-- A text without its white space. -/
def dense (text : List Char) : List Char :=
  text.filter fun c => !isBlank c

/-- A backslash escapes the next character, unless it is itself escaped. -/
def escapesNext (escaped : Bool) (c : Char) : Bool :=
  !escaped && c == '\\'

/-- What a character stands for: a backslash or a mark of a string for nothing, unless it is
escaped, and every other character for itself. -/
def meant (escaped : Bool) (c : Char) : List Char :=
  if !escaped && (c == '\\' || c == '"') then [] else [c]

/-- A text without the backslashes and marks of strings that are not escaped.  Its first
character may be. -/
def content : Bool → List Char → List Char
  | _, [] => []
  | escaped, c :: rest => meant escaped c ++ content (escapesNext escaped c) rest

@[simp] theorem dense_append (front rest : List Char) :
    dense (front ++ rest) = dense front ++ dense rest :=
  List.filter_append ..

theorem dense_of_isBlankText {text : List Char} (h : isBlankText text = true) :
    dense text = [] := by
  rw [dense, List.filter_eq_nil_iff]
  intro c hc
  simpa using List.all_eq_true.1 h c hc

theorem dense_of_isBlank {c : Char} (h : isBlank c = true) : dense [c] = [] := by
  apply dense_of_isBlankText
  simpa [isBlankText] using h

theorem isBlank_of_isSeparator {c : Char} (h : Lexer.isSeparator c = true) : isBlank c = true := by
  simp only [Lexer.isSeparator, Lexer.separators, List.contains_eq_mem, List.mem_cons,
    List.not_mem_nil, or_false, decide_eq_true_eq] at h
  rcases h with rfl | rfl | rfl | rfl <;> rfl

namespace Lexer

/-! ## The characters that a scan has kept -/

/-- The characters of the tokens found and of the one that is being read. -/
def written (s : Lexer) : List Char :=
  s.found.reverse.flatMap (·.text.toList) ++ s.pending.reverse

/-- White space at most is lost where an atom ends. -/
theorem dense_written_flush (s : Lexer) : dense s.flush.written = dense s.written := by
  unfold flush
  split
  · rename_i hblank
    have hpending : isBlankText s.pending.reverse = true := by rwa [isBlankText_reverse]
    rw [written, written, dense_append, dense_append, dense_of_isBlankText hpending,
      List.reverse_nil]
    rfl
  · simp [written, Token.text]

theorem written_closeString (s : Lexer) : s.closeString.written = s.written := by
  simp [written, closeString, Token.text]

theorem dense_written_emit (s : Lexer) (token : Token) :
    dense (s.flush.emit token).written = dense (s.written ++ token.text.toList) := by
  have hemit : (s.flush.emit token).written = s.flush.written ++ token.text.toList := by
    simp [written, emit, pending_flush]
  rw [hemit, dense_append, dense_append, dense_written_flush]

theorem written_pending (s : Lexer) (c : Char) :
    ({ s with pending := c :: s.pending } : Lexer).written = s.written ++ [c] := by
  simp [written]

/-- One character adds what it stands for, and what is kept of it is not white space alone. -/
theorem dense_written_step (s : Lexer) (c : Char) :
    dense (s.step c).written = dense (s.written ++ meant s.escaped c) := by
  unfold step
  split
  case isTrue hescaped =>
    rw [show meant s.escaped c = [c] by simp [meant, hescaped]]
    exact congrArg dense (written_pending s c)
  case isFalse hescaped =>
  rw [Bool.not_eq_true] at hescaped
  by_cases hmark : c = '\\' ∨ c = '"'
  · have hnothing : s.written ++ meant s.escaped c = s.written := by
      rcases hmark with rfl | rfl <;> simp [meant, hescaped]
    rw [hnothing]
    split
    · rfl
    rw [if_pos (hmark.resolve_left ‹_›)]
    split
    · rw [written_closeString]
    · exact dense_written_flush s
  · obtain ⟨hbackslash, hquote⟩ := not_or.1 hmark
    have hitself : meant s.escaped c = [c] := by simp [meant, hbackslash, hquote]
    rw [if_neg hbackslash, if_neg hquote, hitself]
    split
    · exact congrArg dense (written_pending s c)
    split
    case isTrue hopening =>
      subst hopening
      exact dense_written_emit s .opening
    split
    case isTrue hclosing =>
      subst hclosing
      exact dense_written_emit s .closing
    split
    case isTrue hseparator =>
      have hblank := dense_of_isBlank (isBlank_of_isSeparator hseparator)
      rw [dense_written_flush, dense_append, hblank, List.append_nil]
    · exact congrArg dense (written_pending s c)

theorem escaped_step (s : Lexer) (c : Char) : (s.step c).escaped = escapesNext s.escaped c := by
  unfold step escapesNext
  repeat' split
  all_goals simp_all [closeString, emit]

/-- A text adds what it stands for. -/
theorem dense_written_scan (s : Lexer) (text : List Char) :
    dense (s.scan text).written = dense (s.written ++ content s.escaped text) := by
  induction text generalizing s with
  | nil => rw [scan_nil, content, List.append_nil]
  | cons c text ih =>
    rw [scan_cons, ih, escaped_step, dense_append, dense_written_step, ← dense_append,
      List.append_assoc, content]

/-- At the end of the source nothing is lost either, inside a string or outside. -/
theorem dense_finish (s : Lexer) :
    dense (s.finish.flatMap (·.text.toList)) = dense s.written := by
  have hfound : ∀ t : Lexer, t.pending = [] →
      t.found.reverse.flatMap (·.text.toList) = t.written := by
    intro t ht
    rw [written, ht, List.reverse_nil, List.append_nil]
  unfold finish
  split
  · rw [hfound s.closeString rfl, written_closeString]
  · rw [hfound s.flush (pending_flush s), dense_written_flush]

/-! ## Sources -/

/-- Two texts with white space between them are cut on their own, when the first one leaves
no string and no escape open.  The tokens of any source, one behind the other, have all its
characters in their order, but for white space and for the backslashes and marks of strings
that are not escaped. -/
theorem tokenize_conserves :
    (∀ (front rest : String) (c : Char), c ∈ [' ', '\t', '\n', '\r'] →
      (start.scan front.toList).inString = false → (start.scan front.toList).escaped = false →
      tokenize (front ++ String.singleton c ++ rest) = tokenize front ++ tokenize rest) ∧
    ∀ source : String,
      dense ((tokenize source).flatMap (·.text.toList)) = dense (content false source.toList) := by
  refine ⟨fun front rest c hc hstring hescaped => ?_, fun source => ?_⟩
  · have hseparator : isSeparator c = true := by
      rw [isSeparator, List.contains_eq_mem]
      exact decide_eq_true hc
    exact tokenize_separated rest hstring hescaped hseparator
  · exact (dense_finish _).trans (dense_written_scan start source.toList)

/-- An escaped blank and a string with a mark in it, and behind a tab a string that is not
closed and ends in a backslash. -/
theorem tokenize_conserves_openString :
    let front := "(a\\ b \"\\\" (\""
    let rest := "c\"d e\\"
    '\t' ∈ [' ', '\t', '\n', '\r'] ∧
      (start.scan front.toList).inString = false ∧ (start.scan front.toList).escaped = false ∧
      tokenize (front ++ String.singleton '\t' ++ rest) = tokenize front ++ tokenize rest ∧
      tokenize rest = [.atom "c", .string "d e"] ∧
      dense ((tokenize rest).flatMap (·.text.toList)) = "cde".toList := by
  intro front rest
  have hsplit := tokenize_conserves.1 front rest '\t' (by decide) (by decide) (by decide)
  refine ⟨by decide, by decide, by decide, hsplit, by decide, ?_⟩
  rw [tokenize_conserves.2 rest]
  decide

end Lexer

end TinyLisp
