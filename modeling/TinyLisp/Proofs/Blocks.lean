import TinyLisp.Proofs.Answers
import TinyLisp.Proofs.Lines
import TinyLisp.Proofs.Shapes

/-!
# Blocks and their sources

The loop does not evaluate a block as it stands.  It takes the lines without the white
space around them, and puts several of them into one form.  The tokens are the same
apart from the parentheses and the keyword of this form.

There are three groups.

* `tidyTokens_prepare`: the tokens of the source that is made of a block.
* `readAll_enclosed`: expressions are read in the same way inside a form.
* `eval_prepare`: a block of one line is evaluated like its text, and one of several
  lines like its text one level further down.  `evaluate_agrees` says what the answer is.
-/

namespace TinyLisp

variable {hosts : Hosts}

/-! ## The source of a block -/

namespace Repl

theorem sourceLines_eq {text : List Char} (h : ';' ∉ text) : sourceLines text = fullLines text := by
  obtain ⟨front, rest, htext, -, -⟩ := exists_trim text
  have htrim : ';' ∉ trim text := by
    intro hmem
    rw [htext] at h
    exact h (List.mem_append_left _ (List.mem_append_right _ hmem))
  rw [← fullLines_trim, sourceLines, fullLines]
  congr 1
  apply List.filter_congr
  intro line hline
  have hnone : line.contains ';' = false := by
    rw [List.contains_eq_mem, decide_eq_false_iff_not]
    exact fun hmem => htrim (mem_of_mem_splitOn hline hmem)
  rw [hnone, Bool.not_false, Bool.true_and]

theorem tidyTokens_intercalate {lines : List (List Char)}
    (h : ∀ line ∈ lines, (Lexer.start.scan line).isOutside = true) :
    tidyTokens ([' '].intercalate lines) = lines.flatMap tidyTokens ∧
      (Lexer.start.scan ([' '].intercalate lines)).isOutside = true := by
  induction lines with
  | nil => exact ⟨rfl, rfl⟩
  | cons line lines ih =>
    obtain ⟨hline, hlines⟩ := List.forall_mem_cons.1 h
    obtain ⟨htokens, houtside⟩ := ih hlines
    cases lines with
    | nil => simpa using hline
    | cons next lines =>
      rw [List.intercalate_cons_cons, List.append_assoc, List.singleton_append,
        tidyTokens_separated _ hline (by decide), isOutside_separated _ hline (by decide), htokens]
      exact ⟨rfl, houtside⟩

/-- The tokens of one form around other tokens. -/
def enclosed (tokens : List Token) : List Token :=
  .opening :: .atom Keyword.sequence.name :: (tokens ++ [.closing])

theorem tidy_enclosed (tokens : List Token) :
    (enclosed tokens).map Token.tidy = enclosed (tokens.map Token.tidy) := by
  have hname : trimmed Keyword.sequence.name = Keyword.sequence.name := by decide
  simp [enclosed, Token.tidy, hname]

theorem tidyTokens_enclosed {text : List Char} (h : (Lexer.start.scan text).isOutside = true) :
    tidyTokens ("(begin ".toList ++ text ++ [')']) = enclosed (tidyTokens text) := by
  have hfront : Lexer.start.scan "(begin ".toList =
      Lexer.start.behind [.opening, .atom Keyword.sequence.name] := by decide
  have hclose :
      ((Lexer.start.scan text).step ')') = (Lexer.start.scan text).flush.emit .closing := by
    obtain ⟨hstring, hescaped⟩ := Lexer.isOutside_iff.1 h
    simp [Lexer.step, hstring, hescaped]
  have hpending : ((Lexer.start.scan text).flush.emit .closing).pending = [] :=
    Lexer.pending_flush _
  have houtside : ((Lexer.start.scan text).flush.emit .closing).isOutside = true :=
    (Lexer.isOutside_flush _).trans h
  have hfinish : ((Lexer.start.scan text).flush.emit .closing).finish =
      (Lexer.start.scan text).finish ++ [.closing] := by
    rw [Lexer.finish_of_isOutside houtside, Lexer.finish_of_isOutside h,
      Lexer.flush_of_pending hpending]
    simp [Lexer.emit]
  rw [tidyTokens_eq, Lexer.scan_append, Lexer.scan_append, hfront, Lexer.scan_behind,
    Lexer.scan_cons, Lexer.scan_nil, Lexer.step_behind, hclose, Lexer.finish_behind, hfinish,
    tidyTokens_eq, ← tidy_enclosed]
  rfl

/-- The tokens of a block are those of its text, in one form if it has several lines. -/
theorem tidyTokens_prepare {text : List Char} (hcomments : ';' ∉ text)
    (hedges : EdgesOutside text) :
    tidyTokens (prepare text) =
      if 1 < (fullLines text).length then enclosed (tidyTokens text) else tidyTokens text := by
  obtain ⟨htokens, houtside⟩ := hedges.tidyTokens_eq_flatMap
  rw [htokens, prepare, sourceLines_eq hcomments]
  match hlines : fullLines text with
  | [] => rfl
  | [line] => simp
  | first :: second :: lines =>
    rw [hlines] at houtside
    obtain ⟨hjoined, houtside⟩ := tidyTokens_intercalate houtside
    rw [if_pos (by simp), ← hjoined]
    exact tidyTokens_enclosed houtside

end Repl

/-! ## Reading inside a form -/

/-- A form that is closed is an item of the form around it. -/
theorem readInside_of_readInside {room : Nat} {items around : List Value}
    {inner outer : List (List Value)} {tokens left : List Token} {tree : Value}
    (h : readInside room items inner tokens = (.ok tree, left)) :
    readInside room items (inner ++ around :: outer) tokens =
      readInside (room + inner.length + 1) (tree :: around) outer left := by
  fun_induction readInside room items inner tokens with
  | case1 => cases h
  | case2 room items tokens =>
    cases h
    rfl
  | case3 room items tokens next inner ih =>
    rw [List.cons_append, readInside, ih h, List.length_cons]
    congr 1
    omega
  | case4 => cases h
  | case5 items inner tokens room ih =>
    have ih := ih h
    rw [List.cons_append] at ih
    rw [readInside, ih, List.length_cons]
    congr 1
    omega
  | case6 room items inner text tokens ih => exact ih h
  | case7 room items inner text tokens ih => exact ih h

/-- What is read as an expression is read as an item of an open form. -/
theorem readInside_of_readOne {limit : Nat} {tokens left : List Token} {tree : Value}
    (h : readOne limit tokens = (.ok tree, left)) (items : List Value)
    (outer : List (List Value)) :
    readInside (limit + 1) items outer tokens =
      readInside (limit + 1) (tree :: items) outer left := by
  match tokens with
  | [] | .closing :: _ => cases h
  | .string text :: tokens | .atom text :: tokens =>
    cases h
    rfl
  | .opening :: tokens =>
    have hinside : readInside limit [] [] tokens = (.ok tree, left) := h
    exact readInside_of_readInside hinside

/-- Expressions one behind the other are items of an open form. -/
theorem readInside_of_readAll {limit : Nat} {tokens : List Token}
    (h : (readAll limit tokens).2 = none) (items : List Value) (outer : List (List Value))
    (rest : List Token) :
    readInside (limit + 1) items outer (tokens ++ rest) =
      readInside (limit + 1) ((readAll limit tokens).1.reverse ++ items) outer rest := by
  generalize hn : tokens.length = n
  induction n using Nat.strongRecOn generalizing tokens items with
  | ind n ih =>
    subst hn
    by_cases hne : tokens = []
    · subst hne
      rfl
    · have hlength := length_readOne limit hne
      rcases hread : readOne limit tokens with ⟨_ | tree, left⟩
      · rw [readAll_of_readOne_error hne hread] at h
        cases h
      · rw [hread] at hlength
        rw [readAll_of_readOne hread] at h ⊢
        rw [readInside_of_readOne (readOne_append rest hread), ih left.length hlength h _ rfl,
          List.reverse_cons, List.append_assoc, List.singleton_append]

theorem readOne_enclosed (limit : Nat) (tokens : List Token) :
    readOne limit (Repl.enclosed tokens) =
      readInside limit [.identifier Keyword.sequence.name] [] (tokens ++ [.closing]) := by
  have hkeyword : readAtom Keyword.sequence.name = .identifier Keyword.sequence.name := by rfl
  rw [Repl.enclosed, readOne, readInside, hkeyword]

/-- In one form, expressions are its items behind the keyword.  The form takes one level. -/
theorem readAll_enclosed {limit : Nat} {tokens : List Token}
    (h : (readAll limit tokens).2 = none) :
    readAll (limit + 1) (Repl.enclosed tokens) =
      ([.form (.identifier Keyword.sequence.name :: (readAll limit tokens).1)], none) := by
  have hread : readOne (limit + 1) (Repl.enclosed tokens) =
      (.ok (.form (.identifier Keyword.sequence.name :: (readAll limit tokens).1)), []) := by
    rw [readOne_enclosed, readInside_of_readAll h, readInside, List.reverse_append,
      List.reverse_reverse]
    rfl
  rw [readAll_of_readOne hread]
  rfl

/-! ## Evaluating a block -/

namespace Repl

open Session (left)

/-- How many levels more than its text a block takes: one for the form around several lines. -/
def extraDepth (text : List Char) : Nat :=
  if (fullLines text).length = 1 then 0 else 1

variable {text : List Char} {rounds depth : Nat}

/-- A text with an expression has a line that is not blank. -/
theorem fullLines_ne_nil (hedges : EdgesOutside text)
    (hread : (readAll depth (tokenize (String.ofList text))).1 ≠ []) : fullLines text ≠ [] := by
  intro hnil
  have htokens : tidyTokens text = [] := by rw [hedges.tidyTokens_eq_flatMap.1, hnil]; rfl
  rw [← readAll_tidy, ← tidyTokens, htokens] at hread
  exact hread rfl

/-- A block of one line is read like its text. -/
theorem readAll_prepare_line (hcomments : ';' ∉ text) (hedges : EdgesOutside text)
    (h : (fullLines text).length ≤ 1) (limit : Nat) :
    readAll limit (tokenize (String.ofList (prepare text))) =
      readAll limit (tokenize (String.ofList text)) := by
  rw [← readAll_tidy, ← tidyTokens, tidyTokens_prepare hcomments hedges, if_neg (by omega),
    tidyTokens, readAll_tidy]

/-- Several lines are read like their text in a form. -/
theorem readAll_prepare_lines (hcomments : ';' ∉ text) (hedges : EdgesOutside text)
    (h : 1 < (fullLines text).length) (limit : Nat) :
    readAll limit (tokenize (String.ofList (prepare text))) =
      readAll limit (enclosed (tokenize (String.ofList text))) := by
  rw [← readAll_tidy, ← tidyTokens, tidyTokens_prepare hcomments hedges, if_pos h, tidyTokens,
    ← tidy_enclosed, readAll_tidy]

/-- Only what is read matters to the evaluation of a source. -/
theorem evalText_congr {m : Machine} {source source' : String}
    (h : readAll m.depth (tokenize source) = readAll m.depth (tokenize source'))
    (scope : ScopeId) : m.evalText scope source = m.evalText scope source' := by
  unfold Machine.evalText Machine.evalTokens
  rw [h]

/-- The form around several lines evaluates them one level further down. -/
theorem evalText_prepare_lines (hcomments : ';' ∉ text) (hedges : EdgesOutside text)
    (h : 1 < (fullLines text).length)
    (hread : (readAll depth (tokenize (String.ofList text))).2 = none) (scope : ScopeId) :
    (Machine.ofDepth hosts rounds (depth + 1)).evalText scope (String.ofList (prepare text)) =
      (Machine.ofDepth hosts rounds depth).evalText scope (String.ofList text) := by
  have hform :=
    (readAll_prepare_lines hcomments hedges h (depth + 1)).trans (readAll_enclosed hread)
  rw [← Machine.depth_ofDepth rounds (depth + 1)] at hform
  rw [Machine.evalText_of_one hform, Machine.ofDepth, SpecialForm.eval_keyword, Machine.evalText,
    Machine.evalTokens_of_read (by rw [Machine.depth_ofDepth]; exact hread), Machine.depth_ofDepth]
  rfl

/-- A block is evaluated like its text, with one level more if it has several lines. -/
theorem eval_prepare (hcomments : ';' ∉ text) (hedges : EdgesOutside text)
    (hread : (readAll depth (tokenize (String.ofList text))).2 = none)
    (hforms : (readAll depth (tokenize (String.ofList text))).1 ≠ []) :
    Session.eval (.ofDepth hosts rounds (depth + extraDepth text)) (String.ofList (prepare text)) =
      Session.eval (.ofDepth hosts rounds depth) (String.ofList text) := by
  have hsame : ∀ scope, (Machine.ofDepth hosts rounds (depth + extraDepth text)).evalText scope
      (String.ofList (prepare text)) =
        (Machine.ofDepth hosts rounds depth).evalText scope (String.ofList text) := by
    intro scope
    have hfull := List.length_pos_of_ne_nil (fullLines_ne_nil hedges hforms)
    unfold extraDepth
    split
    · rename_i hline
      exact evalText_congr (readAll_prepare_line hcomments hedges (by omega) _) scope
    · exact evalText_prepare_lines hcomments hedges (by omega) hread scope
  funext session
  rw [Session.eval_eq, Session.eval_eq, hsame]

/-- A text with an expression is not prepared to nothing. -/
theorem prepare_ne_nil (hcomments : ';' ∉ text) (hedges : EdgesOutside text)
    (hforms : (readAll depth (tokenize (String.ofList text))).1 ≠ []) : prepare text ≠ [] := by
  intro hnil
  have htokens := tidyTokens_prepare hcomments hedges
  rw [hnil] at htokens
  split at htokens
  · cases htokens
  · have htidy : readAll depth (tidyTokens text) = readAll depth (tokenize (String.ofList text)) :=
      readAll_tidy depth _
    rw [← htidy, ← htokens] at hforms
    exact hforms rfl

/-- A loop that resets evaluates a block in the session after the reset. -/
theorem evaluate_of_start {m : Machine} {fresh : Bool} {session start : Session}
    (h : (if fresh then Session.reset m else pure () : Interaction Unit) session = .ok () start) :
    evaluate m fresh text session = evaluate m false text start := by
  have hplain : evaluate m fresh text =
      (if fresh then Session.reset m else pure ()) >>= fun _ => evaluate m false text := by
    cases fresh <;> rfl
  rw [hplain]
  exact Run.bind_of_ok h

/-- A definition and an empty list, with white space of several kinds around them. -/
def spreadText : List Char := " (define s \"a  b\")\r\n\n\u00a0() \t".toList

end Repl

end TinyLisp
