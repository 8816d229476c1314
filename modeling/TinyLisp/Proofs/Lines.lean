import TinyLisp.Proofs.Balance
import TinyLisp.Proofs.Composition
import TinyLisp.Proofs.Names

/-!
# Lines of source

White space at the edges of lines and blank lines may be taken away from a source
without a change to what is read, as long as none of it is inside a string literal or
escaped.  The texts of the tokens may change, though: the scan cuts atoms at four
characters only, and the other white space is taken away from atoms when they are read.

There are four groups.

* `Token.tidy`: a token without the white space around its atom.  `readAll_tidy` says
  that the reader cannot tell the difference.
* `Lexer.Alike` and `Lexer.flush_scan_blank`: white space in front of a text and behind
  it.
* `fullLines`: the lines of a text that are not blank.  `lines_induction` goes through a
  text line by line.
* `EdgesOutside`: texts in which no string and no escape reaches over the edge of a
  line.  `EdgesOutside.tidyTokens_eq_flatMap` says that the tokens of such a text are
  those of its full lines.
-/

namespace TinyLisp

/-! ## White space around atoms -/

theorem ne_of_isBlank {c d : Char} (hc : isBlank c = true) (hd : isBlank d = false) : c ≠ d := by
  rintro rfl
  rw [hd] at hc
  cases hc

theorem dropWhile_blank_append {white : List Char} (h : isBlankText white = true)
    (text : List Char) : (white ++ text).dropWhile isBlank = text.dropWhile isBlank :=
  List.dropWhile_append_of_pos fun c hc => List.all_eq_true.1 h c hc

theorem trim_blank_append {white : List Char} (h : isBlankText white = true) (text : List Char) :
    trim (white ++ text) = trim text := by
  rw [trim, dropWhile_blank_append h, trim]

theorem isBlankText_reverse (text : List Char) : isBlankText text.reverse = isBlankText text := by
  simp [isBlankText]

theorem isBlankText_append (front rest : List Char) :
    isBlankText (front ++ rest) = (isBlankText front && isBlankText rest) := by
  simp [isBlankText]

theorem trim_append_blank {white : List Char} (h : isBlankText white = true) (text : List Char) :
    trim (text ++ white) = trim text := by
  have hreverse : isBlankText white.reverse = true := by rw [isBlankText_reverse, h]
  rw [trim, List.dropWhile_append]
  split
  · rename_i hempty
    rw [trim, List.isEmpty_iff.1 hempty, Value.dropWhile_blank h]
  · rw [List.reverse_append, dropWhile_blank_append hreverse, trim]

/-- A text is what `trim` leaves of it, between white space. -/
theorem exists_trim (text : List Char) :
    ∃ front rest, text = front ++ trim text ++ rest ∧ isBlankText front = true ∧
      isBlankText rest = true := by
  have htake : ∀ text : List Char, isBlankText (text.takeWhile isBlank) = true := fun text =>
    List.all_eq_true.2 fun c hc => List.mem_takeWhile_imp hc
  let inner := text.dropWhile isBlank
  refine ⟨text.takeWhile isBlank, (inner.reverse.takeWhile isBlank).reverse, ?_, htake text, ?_⟩
  · have hinner : trim text ++ (inner.reverse.takeWhile isBlank).reverse = inner := by
      rw [trim, ← List.reverse_append, List.takeWhile_append_dropWhile, List.reverse_reverse]
    rw [List.append_assoc, hinner, List.takeWhile_append_dropWhile]
  · rw [isBlankText_reverse, htake]

/-- The token without white space around an atom. -/
def Token.tidy : Token → Token
  | .atom text => .atom (trimmed text)
  | token => token

/-- White space around an atom is taken away when it is read. -/
theorem readAtom_trimmed (text : String) : readAtom (trimmed text) = readAtom text := by
  have htrim : trim (trimmed text).toList = trim text.toList := by rw [toList_trimmed, trim_trim]
  unfold readAtom parseNumber?
  rw [htrim]
  cases (Numeral.read? (trim text.toList)).map Numeral.toDouble with
  | none => simp only [trimmed, String.toList_ofList, trim_trim]
  | some number => rfl

theorem readInside_tidy (room : Nat) (items : List Value) (outer : List (List Value))
    (tokens : List Token) :
    readInside room items outer (tokens.map Token.tidy) =
      ((readInside room items outer tokens).1,
        (readInside room items outer tokens).2.map Token.tidy) := by
  fun_induction readInside room items outer tokens with
  | case1 => rfl
  | case2 => rfl
  | case3 room items tokens around outer ih => exact ih
  | case4 => rfl
  | case5 items outer tokens room ih => exact ih
  | case6 room items outer text tokens ih => exact ih
  | case7 room items outer text tokens ih =>
    rw [List.map_cons, Token.tidy, readInside, readAtom_trimmed]
    exact ih

theorem readOne_tidy (limit : Nat) (tokens : List Token) :
    readOne limit (tokens.map Token.tidy) =
      ((readOne limit tokens).1, (readOne limit tokens).2.map Token.tidy) := by
  match tokens with
  | [] | .closing :: _ | .string _ :: _ => rfl
  | .opening :: tokens => exact readInside_tidy limit [] [] tokens
  | .atom text :: tokens => rw [List.map_cons, Token.tidy, readOne, readAtom_trimmed]; rfl

theorem readMany_tidy (limit count : Nat) (tokens : List Token) :
    readMany limit count (tokens.map Token.tidy) = readMany limit count tokens := by
  induction count generalizing tokens with
  | zero => rw [readMany, readMany]
  | succ count ih =>
    cases tokens with
    | nil => rfl
    | cons token tokens =>
      have hone := readOne_tidy limit (token :: tokens)
      rw [List.map_cons] at hone ⊢
      rw [readMany, readMany, hone]
      rcases readOne limit (token :: tokens) with ⟨_ | tree, left⟩
      · rfl
      · simp only [ih]

/-- The reader cannot tell rows that are the same up to white space around atoms. -/
theorem readAll_tidy (limit : Nat) (tokens : List Token) :
    readAll limit (tokens.map Token.tidy) = readAll limit tokens := by
  rw [readAll, List.length_map, readMany_tidy, readAll]

/-! ## White space around a text -/

namespace Lexer

/-- Whether a scan is neither inside a string literal nor behind a backslash. -/
def isOutside (s : Lexer) : Bool :=
  !s.inString && !s.escaped

theorem isOutside_iff {s : Lexer} :
    s.isOutside = true ↔ s.inString = false ∧ s.escaped = false := by
  simp [isOutside]

@[simp] theorem isOutside_flush (s : Lexer) : s.flush.isOutside = s.isOutside := by
  simp [isOutside]

@[simp] theorem pending_flush (s : Lexer) : s.flush.pending = [] := by
  unfold flush
  split <;> rfl

theorem flush_of_pending {s : Lexer} (h : s.pending = []) : s.flush = s := by
  obtain ⟨found, pending, inString, escaped⟩ := s
  obtain rfl : pending = [] := h
  rfl

@[simp] theorem flush_flush (s : Lexer) : s.flush.flush = s.flush :=
  flush_of_pending (pending_flush s)

theorem finish_of_isOutside {s : Lexer} (h : s.isOutside = true) :
    s.finish = s.flush.found.reverse := by
  rw [finish, (isOutside_iff.1 h).1]
  rfl

/-- Outside, white space ends an atom or is added to it. -/
theorem step_blank {s : Lexer} {c : Char} (h : s.isOutside = true) (hc : isBlank c = true) :
    s.step c = if isSeparator c then s.flush else { s with pending := c :: s.pending } := by
  obtain ⟨hstring, hescaped⟩ := isOutside_iff.1 h
  have hbackslash : c ≠ '\\' := ne_of_isBlank hc (by decide)
  have hquote : c ≠ '"' := ne_of_isBlank hc (by decide)
  have hopening : c ≠ '(' := ne_of_isBlank hc (by decide)
  have hclosing : c ≠ ')' := ne_of_isBlank hc (by decide)
  simp [step, hstring, hescaped, hbackslash, hquote, hopening, hclosing]

/-- The tokens that a flush finds, when there is more white space around the atom. -/
theorem tidy_flush {s t : Lexer} (front rest : List Char)
    (hfound : s.found.map Token.tidy = t.found.map Token.tidy)
    (hpending : s.pending = front ++ t.pending ++ rest) (hfront : isBlankText front = true)
    (hrest : isBlankText rest = true) :
    s.flush.found.map Token.tidy = t.flush.found.map Token.tidy := by
  have hblank : isBlankText s.pending = isBlankText t.pending := by
    rw [hpending, isBlankText_append, isBlankText_append, hfront, hrest, Bool.true_and,
      Bool.and_true]
  have htrim : trim s.pending.reverse = trim t.pending.reverse := by
    rw [hpending, List.reverse_append, List.reverse_append,
      trim_blank_append (by rw [isBlankText_reverse, hrest]),
      trim_append_blank (by rw [isBlankText_reverse, hfront])]
  unfold flush
  rw [hblank]
  split
  · exact hfound
  · simp [Token.tidy, trimmed, htrim, hfound]

/-- Behind a text, white space changes nothing but the white space around an atom. -/
theorem flush_scan_blank {s : Lexer} (h : s.isOutside = true) {white : List Char}
    (hwhite : isBlankText white = true) :
    (s.scan white).isOutside = true ∧
      (s.scan white).flush.found.map Token.tidy = s.flush.found.map Token.tidy := by
  induction white generalizing s with
  | nil => exact ⟨h, rfl⟩
  | cons c white ih =>
    rw [isBlankText, List.all_cons, Bool.and_eq_true] at hwhite
    obtain ⟨hc, hwhite⟩ := hwhite
    rw [scan_cons, step_blank h hc]
    split
    · have ih := ih (by rwa [isOutside_flush]) hwhite
      rwa [flush_flush] at ih
    · have ih := ih (s := { s with pending := c :: s.pending }) h hwhite
      refine ⟨ih.1, ih.2.trans ?_⟩
      exact tidy_flush [c] [] rfl (by simp) (by simp [isBlankText, hc]) rfl

/-- Two scans that differ in the white space in front of the pending atom, and of those found. -/
structure Alike (s t : Lexer) : Prop where
  found : s.found.map Token.tidy = t.found.map Token.tidy
  pending : ∃ white, s.pending = t.pending ++ white ∧ isBlankText white = true ∧
    (t.inString = true → white = [])
  inString : s.inString = t.inString
  escaped : s.escaped = t.escaped

namespace Alike

variable {s t : Lexer}

theorem isOutside (h : Alike s t) : s.isOutside = t.isOutside := by
  rw [Lexer.isOutside, Lexer.isOutside, h.inString, h.escaped]

/-- The pending atoms are done with. -/
theorem tidy_flush (h : Alike s t) :
    s.flush.found.map Token.tidy = t.flush.found.map Token.tidy := by
  obtain ⟨white, hpending, hwhite, -⟩ := h.pending
  exact Lexer.tidy_flush [] white h.found hpending rfl hwhite

theorem closeString (h : Alike s t) (hstring : t.inString = true) :
    s.closeString.found.map Token.tidy = t.closeString.found.map Token.tidy := by
  obtain ⟨white, hpending, -, hnil⟩ := h.pending
  have hpending : s.pending = t.pending := by rw [hpending, hnil hstring, List.append_nil]
  simp [Lexer.closeString, Token.tidy, hpending, h.found]

theorem flush (h : Alike s t) : Alike s.flush t.flush := by
  refine ⟨h.tidy_flush, ⟨[], ?_, rfl, fun _ => rfl⟩, ?_, ?_⟩
  · rw [pending_flush, pending_flush, List.append_nil]
  · rw [inString_flush, inString_flush, h.inString]
  · rw [escaped_flush, escaped_flush, h.escaped]

theorem emit (h : Alike s t) (token : Token) : Alike (s.emit token) (t.emit token) :=
  ⟨by simp [Lexer.emit, h.found], h.pending, h.inString, h.escaped⟩

/-- One more character of the pending token. -/
theorem add (h : Alike s t) (c : Char) (escaped : Bool) :
    Alike { s with pending := c :: s.pending, escaped := escaped }
      { t with pending := c :: t.pending, escaped := escaped } := by
  obtain ⟨white, hpending, hwhite, hnil⟩ := h.pending
  exact ⟨h.found, ⟨white, by simp [hpending], hwhite, hnil⟩, h.inString, rfl⟩

theorem step (h : Alike s t) (c : Char) : Alike (s.step c) (t.step c) := by
  obtain ⟨found, pending, inString, escaped⟩ := s
  obtain ⟨found', pending', inString', escaped'⟩ := t
  obtain rfl : inString = inString' := h.inString
  obtain rfl : escaped = escaped' := h.escaped
  unfold Lexer.step
  dsimp only
  split
  · exact h.add c false
  split
  · exact ⟨h.found, h.pending, rfl, rfl⟩
  split
  · split
    · rename_i hstring
      exact ⟨h.closeString hstring, ⟨[], rfl, rfl, fun _ => rfl⟩, rfl, rfl⟩
    · refine ⟨h.tidy_flush, ⟨[], ?_, rfl, fun _ => rfl⟩, rfl, h.flush.escaped⟩
      rw [pending_flush, pending_flush, List.append_nil]
  split
  · exact h.add c escaped
  split
  · exact h.flush.emit .opening
  split
  · exact h.flush.emit .closing
  split
  · exact h.flush
  · exact h.add c escaped

theorem scan (h : Alike s t) (text : List Char) : Alike (s.scan text) (t.scan text) := by
  induction text generalizing s t with
  | nil => exact h
  | cons c text ih => exact ih (h.step c)

theorem finish (h : Alike s t) : s.finish.map Token.tidy = t.finish.map Token.tidy := by
  unfold Lexer.finish
  rw [h.inString]
  split
  · rename_i hstring
    rw [List.map_reverse, h.closeString hstring, List.map_reverse]
  · rw [List.map_reverse, h.tidy_flush, List.map_reverse]

end Alike

/-- White space at the start of a text is pending at most. -/
theorem alike_scan_blank {s : Lexer} (h : Alike s start) {white : List Char}
    (hwhite : isBlankText white = true) : Alike (s.scan white) start := by
  induction white generalizing s with
  | nil => exact h
  | cons c white ih =>
    rw [isBlankText, List.all_cons, Bool.and_eq_true] at hwhite
    rw [scan_cons, step_blank h.isOutside hwhite.1]
    split
    · exact ih h.flush hwhite.2
    · obtain ⟨before, hpending, hbefore, -⟩ := h.pending
      refine ih ⟨h.found, ⟨c :: before, by simp [hpending, start], ?_, ?_⟩, h.inString,
        h.escaped⟩ hwhite.2
      · rw [isBlankText, List.all_cons, hwhite.1]
        exact hbefore
      · intro hstring
        cases hstring

/-- In front of a text, white space makes no difference but around the first atom. -/
theorem alike_blank_append {white : List Char} (h : isBlankText white = true) (text : List Char) :
    Alike (start.scan (white ++ text)) (start.scan text) := by
  have hstart : Alike start start := ⟨rfl, ⟨[], rfl, rfl, fun _ => rfl⟩, rfl, rfl⟩
  rw [scan_append]
  exact (alike_scan_blank hstart h).scan text

end Lexer

/-- The tokens of a text, as far as they matter to the reader. -/
def tidyTokens (text : List Char) : List Token :=
  (tokenize (String.ofList text)).map Token.tidy

theorem tidyTokens_eq (text : List Char) :
    tidyTokens text = (Lexer.start.scan text).finish.map Token.tidy := by
  rw [tidyTokens, tokenize, String.toList_ofList]

theorem tidyTokens_blank_append {white : List Char} (h : isBlankText white = true)
    (text : List Char) : tidyTokens (white ++ text) = tidyTokens text := by
  rw [tidyTokens_eq, tidyTokens_eq, (Lexer.alike_blank_append h text).finish]

theorem tidyTokens_append_blank {text white : List Char}
    (houtside : (Lexer.start.scan text).isOutside = true) (h : isBlankText white = true) :
    tidyTokens (text ++ white) = tidyTokens text := by
  obtain ⟨houtside', hfound⟩ := Lexer.flush_scan_blank houtside h
  rw [tidyTokens_eq, tidyTokens_eq, Lexer.scan_append, Lexer.finish_of_isOutside houtside',
    Lexer.finish_of_isOutside houtside, List.map_reverse, hfound, List.map_reverse]

/-- Two texts with a separator between them are cut on their own. -/
theorem tidyTokens_separated {front : List Char} {c : Char} (rest : List Char)
    (h : (Lexer.start.scan front).isOutside = true) (hc : Lexer.isSeparator c = true) :
    tidyTokens (front ++ c :: rest) = tidyTokens front ++ tidyTokens rest := by
  obtain ⟨hstring, hescaped⟩ := Lexer.isOutside_iff.1 h
  have hsource : String.ofList (front ++ c :: rest) =
      String.ofList front ++ String.singleton c ++ String.ofList rest := by
    apply String.toList_inj.1
    simp
  rw [tidyTokens, hsource, Lexer.tokenize_separated (String.ofList rest)
    (by rwa [String.toList_ofList]) (by rwa [String.toList_ofList]) hc, List.map_append]
  rfl

/-- The scan of what stands behind a separator does not depend on what stands in front. -/
theorem isOutside_separated {front : List Char} {c : Char} (rest : List Char)
    (h : (Lexer.start.scan front).isOutside = true) (hc : Lexer.isSeparator c = true) :
    (Lexer.start.scan (front ++ c :: rest)).isOutside = (Lexer.start.scan rest).isOutside := by
  obtain ⟨hstring, hescaped⟩ := Lexer.isOutside_iff.1 h
  rw [Lexer.scan_append, Lexer.scan_cons, Lexer.step_separator hstring hescaped hc,
    Lexer.flush_eq_behind hstring hescaped, Lexer.scan_behind]
  rfl

/-! ## Full lines -/

/-- The lines of a text that are not blank, without the white space around them. -/
def fullLines (text : List Char) : List (List Char) :=
  ((text.splitOn '\n').filter fun line => !isBlankText line).map trim

theorem splitOn_line {line : List Char} (h : '\n' ∉ line) : line.splitOn '\n' = [line] := by
  rw [List.splitOn_eq_splitOnP]
  apply List.splitOnP_eq_singleton
  intro c hc
  rw [beq_eq_false_iff_ne]
  rintro rfl
  exact h hc

theorem splitOn_append (front rest : List Char) :
    (front ++ '\n' :: rest).splitOn '\n' = front.splitOn '\n' ++ rest.splitOn '\n' := by
  rw [List.splitOn_eq_splitOnP, List.splitOnP_append_cons _ _ (by simp)]
  rfl

/-- A text is a line, or a line in front of another text. -/
theorem lines_induction {P : List Char → Prop} (last : ∀ line, '\n' ∉ line → P line)
    (next : ∀ line rest, '\n' ∉ line → P rest → P (line ++ '\n' :: rest)) (text : List Char) :
    P text := by
  have hfront : ∀ line, '\n' ∉ line → P (line ++ text) := by
    induction text with
    | nil =>
      intro line hline
      rw [List.append_nil]
      exact last line hline
    | cons c text ih =>
      intro line hline
      by_cases hc : c = '\n'
      · subst hc
        exact next line text hline (ih [] (by simp))
      · have hlonger := ih (line ++ [c]) (by simp [hline, Ne.symm hc])
        rwa [List.append_assoc, List.singleton_append] at hlonger
  exact hfront [] (by simp)

theorem mem_of_mem_splitOn {text line : List Char} (h : line ∈ text.splitOn '\n') {c : Char}
    (hc : c ∈ line) : c ∈ text := by
  induction text using lines_induction with
  | last only hnone =>
    rw [splitOn_line hnone, List.mem_singleton] at h
    rwa [← h]
  | next first rest hnone ih =>
    rw [splitOn_append, splitOn_line hnone, List.mem_append, List.mem_singleton] at h
    rcases h with rfl | h
    · exact List.mem_append_left _ hc
    · exact List.mem_append_right _ (List.mem_cons_of_mem _ (ih h))

theorem isBlankText_iff {text : List Char} : isBlankText text = true ↔ trim text = [] :=
  ⟨Value.trim_blank, isBlankText_of_trim⟩

@[simp] theorem fullLines_nil : fullLines [] = [] := rfl

/-- One line. -/
theorem fullLines_line {line : List Char} (h : '\n' ∉ line) :
    fullLines line = if trim line = [] then [] else [trim line] := by
  rw [fullLines, splitOn_line h]
  by_cases hblank : trim line = []
  · rw [if_pos hblank, List.filter_cons_of_neg (by simp [isBlankText_iff.2 hblank])]
    rfl
  · rw [if_neg hblank, List.filter_cons_of_pos (by simpa [← isBlankText_iff] using hblank)]
    rfl

theorem fullLines_append (front rest : List Char) :
    fullLines (front ++ '\n' :: rest) = fullLines front ++ fullLines rest := by
  rw [fullLines, splitOn_append, List.filter_append, List.map_append]
  rfl

theorem fullLines_blank_cons {c : Char} (h : isBlank c = true) (text : List Char) :
    fullLines (c :: text) = fullLines text := by
  by_cases hc : c = '\n'
  · subst hc
    exact fullLines_append [] text
  have hline : ∀ line, '\n' ∉ line → fullLines (c :: line) = fullLines line := by
    intro line hline
    have htrim : trim ([c] ++ line) = trim line := trim_blank_append (by simp [isBlankText, h]) line
    rw [fullLines_line (by simp [hline, Ne.symm hc]), fullLines_line hline, ← htrim]
    rfl
  induction text using lines_induction with
  | last line hnone => exact hline line hnone
  | next line rest hnone _ =>
    rw [← List.cons_append, fullLines_append, fullLines_append, hline line hnone]

theorem fullLines_append_blank_singleton {c : Char} (h : isBlank c = true) (text : List Char) :
    fullLines (text ++ [c]) = fullLines text := by
  by_cases hc : c = '\n'
  · subst hc
    rw [fullLines_append, fullLines_nil, List.append_nil]
  induction text using lines_induction with
  | last line hnone =>
    have htrim : trim (line ++ [c]) = trim line := trim_append_blank (by simp [isBlankText, h]) line
    rw [fullLines_line (by simp [hnone, Ne.symm hc]), fullLines_line hnone, htrim]
  | next line rest hnone ih =>
    rw [List.append_assoc, List.cons_append, fullLines_append, fullLines_append, ih]

/-- White space around a text stands at the edges of its lines, or is itself blank lines. -/
theorem fullLines_trim (text : List Char) : fullLines (trim text) = fullLines text := by
  have hfront : ∀ white text, isBlankText white = true →
      fullLines (white ++ text) = fullLines text := by
    intro white text hwhite
    induction white with
    | nil => rfl
    | cons c white ih =>
      rw [isBlankText, List.all_cons, Bool.and_eq_true] at hwhite
      rw [List.cons_append, fullLines_blank_cons hwhite.1, ih hwhite.2]
  have hrest : ∀ white text, isBlankText white = true →
      fullLines (text ++ white) = fullLines text := by
    intro white text hwhite
    induction white generalizing text with
    | nil => rw [List.append_nil]
    | cons c white ih =>
      rw [isBlankText, List.all_cons, Bool.and_eq_true] at hwhite
      rw [← List.singleton_append, ← List.append_assoc, ih _ hwhite.2,
        fullLines_append_blank_singleton hwhite.1]
  obtain ⟨front, rest, htext, hblank, hblank'⟩ := exists_trim text
  conv_rhs => rw [htext]
  rw [hrest _ _ hblank', hfront _ _ hblank]

/-! ## Edges of lines -/

/-- No string and no escape reaches over the end of a line or over the white space in front of it:
every place with nothing but white space between itself and the end of its line is outside.  The
white space at the start of a line is then outside as well. -/
def EdgesOutside (text : List Char) : Prop :=
  ∀ n ≤ text.length, isBlankText ((text.drop n).takeWhile (· ≠ '\n')) = true →
    (Lexer.start.scan (text.take n)).isOutside = true

instance (text : List Char) : Decidable (EdgesOutside text) :=
  inferInstanceAs (Decidable (∀ n ≤ text.length, _ → _))

theorem edgesOutside_iff {text : List Char} :
    EdgesOutside text ↔ ∀ front rest, text = front ++ rest →
      isBlankText (rest.takeWhile (· ≠ '\n')) = true →
        (Lexer.start.scan front).isOutside = true := by
  constructor
  · rintro h front rest rfl hblank
    have hplace := h front.length (by simp)
    rw [List.drop_left, List.take_left] at hplace
    exact hplace hblank
  · intro h n hn
    exact h (text.take n) (text.drop n) (List.take_append_drop n text).symm

namespace EdgesOutside

/-- The text of a line with nothing but white space behind it. -/
theorem takeWhile_line {line : List Char} (h : '\n' ∉ line) :
    line.takeWhile (· ≠ '\n') = line ∧
      ∀ rest, (line ++ '\n' :: rest).takeWhile (· ≠ '\n') = line := by
  have hline : ∀ c ∈ line, decide (c ≠ '\n') = true := by
    intro c hc
    rw [decide_eq_true_iff]
    rintro rfl
    exact h hc
  refine ⟨List.takeWhile_eq_self_iff.2 hline, fun rest => ?_⟩
  rw [List.takeWhile_append_of_pos hline, List.takeWhile_cons_of_neg (by simp), List.append_nil]

/-- A text keeps strings and escapes within its lines when its end is outside. -/
theorem isOutside {text : List Char} (h : EdgesOutside text) :
    (Lexer.start.scan text).isOutside = true :=
  edgesOutside_iff.1 h text [] (List.append_nil text).symm rfl

/-- Each line is looked at on its own. -/
theorem append_iff {line : List Char} (h : '\n' ∉ line) (rest : List Char) :
    EdgesOutside (line ++ '\n' :: rest) ↔ EdgesOutside line ∧ EdgesOutside rest := by
  constructor
  · intro hedges
    rw [edgesOutside_iff] at hedges
    have hline : EdgesOutside line := by
      rw [edgesOutside_iff]
      rintro front tail rfl hblank
      have htail : '\n' ∉ tail := fun hmem => h (List.mem_append_right front hmem)
      rw [(takeWhile_line htail).1] at hblank
      refine hedges front (tail ++ '\n' :: rest) (List.append_assoc _ _ _) ?_
      rwa [(takeWhile_line htail).2]
    refine ⟨hline, ?_⟩
    rw [edgesOutside_iff]
    rintro front tail rfl hblank
    rw [← isOutside_separated front hline.isOutside (c := '\n') (by decide)]
    exact hedges (line ++ '\n' :: front) tail (by simp) hblank
  · rintro ⟨hline, hrest⟩
    rw [edgesOutside_iff]
    intro front tail htext hblank
    rcases List.append_eq_append_iff.1 htext.symm with ⟨inner, rfl, rfl⟩ | ⟨behind, rfl, hbehind⟩
    · -- the place is in the first line
      have hinner : '\n' ∉ inner := fun hmem => h (List.mem_append_right front hmem)
      rw [(takeWhile_line hinner).2] at hblank
      refine edgesOutside_iff.1 hline front inner rfl ?_
      rwa [(takeWhile_line hinner).1]
    · cases behind with
      | nil => simpa using hline.isOutside
      | cons c front =>
        obtain ⟨rfl, rfl⟩ := List.cons.inj hbehind
        rw [isOutside_separated front hline.isOutside (by decide)]
        exact edgesOutside_iff.1 hrest front tail rfl hblank

/-- White space at the edges of a line may go. -/
theorem trim_line {line : List Char} (h : EdgesOutside line) :
    (Lexer.start.scan (trim line)).isOutside = true ∧ tidyTokens line = tidyTokens (trim line) := by
  obtain ⟨front, rest, hline, hfront, hrest⟩ := exists_trim line
  have hblank : isBlankText (rest.takeWhile (· ≠ '\n')) = true := by
    rw [isBlankText, List.all_eq_true] at hrest ⊢
    exact fun c hc => hrest c ((List.takeWhile_sublist _).mem hc)
  have houtside := edgesOutside_iff.1 h (front ++ trim line) rest hline hblank
  constructor
  · rw [← (Lexer.alike_blank_append hfront (trim line)).isOutside, houtside]
  · conv_lhs => rw [hline]
    rw [tidyTokens_append_blank houtside hrest, tidyTokens_blank_append hfront]

/-- The full lines of a text have all of its tokens. -/
theorem tidyTokens_eq_flatMap {text : List Char} (h : EdgesOutside text) :
    tidyTokens text = (fullLines text).flatMap tidyTokens ∧
      ∀ line ∈ fullLines text, (Lexer.start.scan line).isOutside = true := by
  induction text using lines_induction with
  | last line hnone =>
    obtain ⟨houtside, htokens⟩ := h.trim_line
    rw [fullLines_line hnone, htokens]
    split
    · rename_i hblank
      rw [hblank]
      simp [tidyTokens_eq, Lexer.finish, Lexer.start, Lexer.flush, isBlankText]
    · simpa using houtside
  | next line rest hnone ih =>
    obtain ⟨hline, hrest⟩ := (append_iff hnone rest).1 h
    obtain ⟨houtside, htokens⟩ := hline.trim_line
    obtain ⟨htokens', houtside'⟩ := ih hrest
    rw [tidyTokens_separated rest hline.isOutside (by decide), fullLines_append,
      fullLines_line hnone, htokens, htokens']
    split
    · rename_i hblank
      rw [hblank]
      exact ⟨by simp [tidyTokens_eq, Lexer.finish, Lexer.start, Lexer.flush, isBlankText],
        houtside'⟩
    · exact ⟨by simp, List.forall_mem_cons.2 ⟨houtside, houtside'⟩⟩

end EdgesOutside

end TinyLisp
