import TinyLisp.Proofs.Blocks

/-!
# Blocks with stray parentheses

A text in which the parentheses do not match is refused, and so is the block with this
text, as a rule.  But the form around several lines brings an opening parenthesis in
front of them and a closing one behind.  A parenthesis of the text that closes too much
closes this form, and if the rest leaves one form open, the last parenthesis closes that
one: nothing is left to be refused.

There are three groups.

* `Plain`: texts without comments and escapes in which no string goes over a line end.
* `matched_enclosed_iff`: when the parentheses match inside another pair.
  `Disguised` texts are those to which this happens.
* `refused_or_disguised`: what becomes of a block that cannot be read, and a block that
  is evaluated all the same.
-/

namespace TinyLisp

variable {hosts : Hosts}

/-! ## Plain texts -/

namespace Lexer

variable {s : Lexer} {c : Char}

/-- Only a backslash escapes, and only a quotation mark begins or ends a string. -/
theorem step_modes (hescaped : s.escaped = false) (hc : c ≠ '\\') :
    (s.step c).escaped = false ∧ (c ≠ '"' → (s.step c).inString = s.inString) := by
  have hcount := Repl.countOf_step s c
  have hstep : ((Repl.countOf s).step c).escaped = false ∧
      (c ≠ '"' → ((Repl.countOf s).step c).inString = s.inString) := by
    simp only [Repl.Balance.step, Repl.countOf, hescaped, hc, Bool.false_eq_true, if_false]
    split
    · rename_i hquote
      exact ⟨rfl, fun hne => absurd hquote hne⟩
    · split_ifs <;> exact ⟨rfl, fun _ => rfl⟩
  rwa [← hcount] at hstep

/-- Without a backslash nothing is escaped. -/
theorem escaped_scan {text : List Char} (h : '\\' ∉ text) (hescaped : s.escaped = false) :
    (s.scan text).escaped = false := by
  induction text generalizing s with
  | nil => exact hescaped
  | cons c text ih =>
    rw [List.mem_cons, not_or] at h
    exact ih h.2 (step_modes hescaped (Ne.symm h.1)).1

/-- White space neither begins nor ends a string. -/
theorem inString_scan_blank {white : List Char} (h : isBlankText white = true)
    (hescaped : s.escaped = false) : (s.scan white).inString = s.inString := by
  induction white generalizing s with
  | nil => rfl
  | cons c white ih =>
    rw [isBlankText, List.all_cons, Bool.and_eq_true] at h
    obtain ⟨hc, hwhite⟩ := h
    have hbackslash : c ≠ '\\' := ne_of_isBlank hc (by decide)
    have hquote : c ≠ '"' := ne_of_isBlank hc (by decide)
    obtain ⟨hstep, hstring⟩ := step_modes hescaped hbackslash
    rw [scan_cons, ih hwhite hstep, hstring hquote]

end Lexer

namespace Repl

/-- Strings end in the line in which they begin, and nothing is escaped or commented out. -/
structure Plain (text : List Char) : Prop where
  comments : ';' ∉ text
  escapes : '\\' ∉ text
  strings : ∀ line ∈ text.splitOn '\n', (Lexer.start.scan line).inString = false

/-- In a plain line, the place in front of the white space at its end is outside. -/
theorem edgesOutside_line {line : List Char} (hline : '\n' ∉ line) (hescapes : '\\' ∉ line)
    (hstring : (Lexer.start.scan line).inString = false) : EdgesOutside line := by
  rw [edgesOutside_iff]
  rintro front rest rfl hblank
  have hrest : '\n' ∉ rest := fun hmem => hline (List.mem_append_right front hmem)
  have hfront : '\\' ∉ front := fun hmem => hescapes (List.mem_append_left rest hmem)
  have hescaped : (Lexer.start.scan front).escaped = false := Lexer.escaped_scan hfront rfl
  rw [(EdgesOutside.takeWhile_line hrest).1] at hblank
  rw [Lexer.scan_append, Lexer.inString_scan_blank hblank hescaped] at hstring
  exact Lexer.isOutside_iff.2 ⟨hstring, hescaped⟩

/-- Plain texts have nothing but ordinary white space at the edges of their lines. -/
theorem Plain.edgesOutside {text : List Char} (h : Plain text) : EdgesOutside text := by
  obtain ⟨-, hescapes, hstrings⟩ := h
  induction text using lines_induction with
  | last line hline =>
    rw [splitOn_line hline] at hstrings
    exact edgesOutside_line hline hescapes (hstrings line (by simp))
  | next line rest hline ih =>
    rw [splitOn_append, splitOn_line hline] at hstrings
    simp only [List.mem_append, List.mem_cons, not_or] at hescapes
    refine (EdgesOutside.append_iff hline rest).2 ⟨?_, ?_⟩
    · exact edgesOutside_line hline hescapes.1 (hstrings line (by simp))
    · exact ih hescapes.2.2 fun line hmem => hstrings line (by simp [hmem])

/-! ## A pair of parentheses around others -/

theorem balance_enclosed (tokens : List Token) : balance (enclosed tokens) = balance tokens := by
  simp [enclosed, Token.turn]

/-- Inside another pair, parentheses match if they match in number and never close more than one
form too much. -/
theorem matched_enclosed_iff {tokens : List Token} :
    Matched (enclosed tokens) ↔
      balance tokens = 0 ∧ ∀ front, front <+: tokens → -1 ≤ balance front := by
  constructor
  · rintro ⟨hbalanced, hinside⟩
    refine ⟨by rwa [balance_enclosed] at hbalanced, fun front hfront => ?_⟩
    have hopened : 0 ≤ balance (.opening :: .atom Keyword.sequence.name :: front) := by
      apply hinside
      rw [enclosed, List.prefix_cons_inj, List.prefix_cons_inj]
      exact hfront.trans (List.prefix_append tokens [.closing])
    simp only [balance_cons, Token.turn] at hopened
    omega
  · rintro ⟨hbalanced, hinside⟩
    refine ⟨by rwa [balance_enclosed], fun front hfront => ?_⟩
    -- a front is empty, or the parenthesis only, or goes into the tokens, or is the whole row
    rcases List.prefix_cons_iff.1 hfront with rfl | ⟨behind, rfl, hbehind⟩
    · exact Int.le_refl _
    rcases List.prefix_cons_iff.1 hbehind with rfl | ⟨inner, rfl, hinner⟩
    · decide
    rcases List.prefix_concat_iff.1 hinner with rfl | hinner
    · simp [Token.turn, hbalanced]
    · have := hinside inner hinner
      simp only [balance_cons, Token.turn]
      omega

/-- In a row in which the parentheses match, reading stops at the limit of the depth only. -/
theorem readAll_of_matched {tokens : List Token} (h : Matched tokens) (limit : Nat) :
    (readAll limit tokens).2 = none ∨ (readAll limit tokens).2 = some .tooDeep := by
  have hending := readAll_ending limit tokens
  generalize (readAll limit tokens).2 = ending at hending
  cases hending with
  | complete => exact .inl rfl
  | tooDeep => exact .inr rfl
  | strayClose front rest split matched =>
    have hclosed := h.inside (front ++ [.closing]) ⟨rest, by simp [split]⟩
    simp [matched.balanced, Token.turn] at hclosed
  | unclosed front rest split matched nonempty isOpen =>
    have hopen := isOpen rest List.prefix_rfl nonempty
    have hbalanced := h.balanced
    rw [split, balance_append, matched.balanced] at hbalanced
    omega

/-- A parenthesis that closes too much closes the form around the row.  What has been read before is
in this form. -/
theorem readInside_of_strayClose {limit : Nat} {tokens : List Token}
    (h : (readAll limit tokens).2 = some (.error (.unreadable .strayClose))) (items : List Value)
    (rest : List Token) :
    ∃ left, readInside (limit + 1) items [] (tokens ++ rest) =
      (.ok (.form (items.reverse ++ (readAll limit tokens).1)), left) := by
  generalize hn : tokens.length = n
  induction n using Nat.strongRecOn generalizing tokens items with
  | ind n ih =>
    subst hn
    -- the induction takes one expression at a time, up to the parenthesis that closes too much
    match tokens with
    | [] => cases h
    | token :: tokens =>
      by_cases hclosing : token = .closing
      · subst hclosing
        exact ⟨tokens ++ rest, by simp [readInside, readAll, readMany, readOne]⟩
      have hne := List.cons_ne_nil token tokens
      have hreading := readOne_reading limit token tokens hclosing
      have hlength := length_readOne limit hne
      rcases hread : readOne limit (token :: tokens) with ⟨stop | tree, left⟩
      · rw [readAll_of_readOne_error hne hread] at h
        obtain rfl : stop = .error (.unreadable .strayClose) := Option.some.inj h
        rw [hread] at hreading
        cases hreading
      · rw [hread] at hlength
        rw [readAll_of_readOne hread] at h ⊢
        obtain ⟨behind, hbehind⟩ := ih left.length hlength h (tree :: items) rfl
        refine ⟨behind, ?_⟩
        rw [readInside_of_readOne (readOne_append rest hread), hbehind, List.reverse_cons,
          List.append_assoc, List.singleton_append]

/-- The text has several lines, and inside the form around them its parentheses match: they match in
number, and they never close more than one form too much. -/
def Disguised (text : List Char) : Prop :=
  1 < (fullLines text).length ∧ balance (tokenize (String.ofList text)) = 0 ∧
    ∀ front ∈ (tokenize (String.ofList text)).inits, -1 ≤ balance front

instance (text : List Char) : Decidable (Disguised text) :=
  inferInstanceAs (Decidable (_ ∧ _ ∧ ∀ front ∈ (tokenize (String.ofList text)).inits, _))

theorem disguised_iff {text : List Char} :
    Disguised text ↔ 1 < (fullLines text).length ∧
      Matched (enclosed (tokenize (String.ofList text))) := by
  unfold Disguised
  simp only [matched_enclosed_iff, List.mem_inits]

/-! ## Refusing a block -/

variable {text : List Char} {rounds depth : Nat} {problem : SyntaxProblem}

/-- Where a text is not disguised, the source that is made of it cannot be read either. -/
theorem readAll_prepare_ne_none (hplain : Plain text) (h : ¬ Disguised text)
    (hread : (readAll depth (tokenize (String.ofList text))).2 ≠ none) :
    (readAll depth (tokenize (String.ofList (prepare text)))).2 ≠ none := by
  by_cases hlines : 1 < (fullLines text).length
  · rw [readAll_prepare_lines hplain.comments hplain.edgesOutside hlines]
    exact fun hnone => h (disguised_iff.2 ⟨hlines, matched_of_readAll hnone⟩)
  · rwa [readAll_prepare_line hplain.comments hplain.edgesOutside (Nat.not_lt.1 hlines)]

/-- A source that cannot be read to its end has no value. -/
theorem exists_stop_of_readAll {m : Machine} {source : String}
    (h : (readAll m.depth (tokenize source)).2 ≠ none) (session : Session) :
    ∃ stop after, Session.eval m source session = .error stop after := by
  obtain ⟨stop, hstop⟩ := Option.ne_none_iff_exists'.1 h
  rw [Session.eval_eq, Machine.evalText, Machine.evalTokens_of_stop hstop]
  generalize hbody : m.evalBody session.store.root (readAll m.depth (tokenize source)).1 = body
  cases hrun : body session.store with
  | ok value store =>
    rw [Run.bind_of_ok hrun]
    exact ⟨stop, _, rfl⟩
  | error stop' store =>
    rw [Run.bind_of_error hrun]
    exact ⟨stop', _, rfl⟩

/-- In a disguised text that cannot be read, a parenthesis closes too much. -/
theorem strayClose_of_disguised (h : Disguised text)
    (hread : (readAll depth (tokenize (String.ofList text))).2 =
      some (.error (.unreadable problem))) : problem = .strayClose := by
  obtain ⟨-, hbalanced, -⟩ := h
  have hending := readAll_ending depth (tokenize (String.ofList text))
  rw [hread] at hending
  cases problem with
  | strayClose => rfl
  | unclosedForm =>
    have := balance_pos_of_unclosed hread
    omega
  | noExpression => cases hending

/-- The expressions in front of a parenthesis that closes too much are those of the form around the
row. -/
theorem readAll_enclosed_of_strayClose {tokens : List Token}
    (h : (readAll depth tokens).2 = some (.error (.unreadable .strayClose))) :
    (readAll (depth + 1) (enclosed tokens)).1.head? =
      some (.form (.identifier Keyword.sequence.name :: (readAll depth tokens).1)) := by
  obtain ⟨left, hform⟩ :=
    readInside_of_strayClose h [.identifier Keyword.sequence.name] [.closing]
  rw [readAll_of_readOne ((readOne_enclosed (depth + 1) tokens).trans hform)]
  rfl

/-- The second line closes the form around both lines, and leaves one open. -/
def disguisedText : List Char := "(\n)) (\n".toList

theorem evaluate_disguisedText (rounds depth : Nat) (session : Session) :
    evaluate (.ofDepth hosts rounds (depth + 3)) false disguisedText session =
      .ok (true, "()") session := by
  have hprepare : prepare disguisedText = "(begin ( )) ()".toList := by decide
  have hread : readAll (depth + 3) (tokenize "(begin ( )) ()") =
      ([.form [.identifier "begin", .form []], .form []], none) := rfl
  have heval : Session.eval (.ofDepth hosts rounds (depth + 3)) "(begin ( )) ()" session =
      .ok .nil session := by
    rw [Session.eval_eq, Machine.evalText,
      Machine.evalTokens_of_read (by rw [Machine.depth_ofDepth, hread]), Machine.depth_ofDepth,
      hread]
    rfl
  rw [evaluate_of_value hprepare heval, Machine.depth_ofDepth]
  rfl

end Repl

end TinyLisp
