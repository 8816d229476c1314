import TinyLisp.Proofs.Expressions
import TinyLisp.Repl

/-!
# The count of open parentheses

The loop counts parentheses with a scan of its own, in order to know when a block is
complete.  The count is the balance of the tokens that the lexer finds, so it says
where the reader can break off.

There are three groups.

* `countOf`: the count that belongs to a scan of the lexer.  `countOf_step` says that one
  character takes both along, and `openForms_eq_balance` is the fold over a text.
* `Ending`: how the reading of a row ends, and what the parentheses in front of its
  end are then like.
* `openForms_agrees`: texts, and the blocks that are submitted because their count is
  not positive.
-/

namespace TinyLisp

/-! ## In lock step -/

theorem balance_reverse (tokens : List Token) : balance tokens.reverse = balance tokens := by
  simp [balance]

namespace Lexer

/-- An atom that ends is no parenthesis. -/
@[simp] theorem balance_flush (s : Lexer) : balance s.flush.found = balance s.found := by
  unfold flush
  split <;> simp [Token.turn]

@[simp] theorem balance_closeString (s : Lexer) :
    balance s.closeString.found = balance s.found := by
  simp [closeString, Token.turn]

@[simp] theorem inString_flush (s : Lexer) : s.flush.inString = s.inString := by
  unfold flush
  split <;> rfl

@[simp] theorem escaped_flush (s : Lexer) : s.flush.escaped = s.escaped := by
  unfold flush
  split <;> rfl

/-- The end of a text adds no parenthesis. -/
theorem balance_finish (s : Lexer) : balance s.finish = balance s.found := by
  unfold finish
  split
  · rw [balance_reverse, balance_closeString]
  · rw [balance_reverse, balance_flush]

end Lexer

namespace Repl

/-- The count of parentheses that belongs to a state of the lexer. -/
def countOf (s : Lexer) : Balance :=
  ⟨balance s.found, s.inString, s.escaped⟩

/-- One character takes the count along with the lexer. -/
theorem countOf_step (s : Lexer) (c : Char) : countOf (s.step c) = (countOf s).step c := by
  unfold countOf Balance.step Lexer.step
  dsimp only
  split
  · rfl
  split
  · rfl
  split
  · split <;> simp_all [Lexer.closeString, Token.turn]
  split
  · rfl
  split
  · simp [Lexer.emit, Token.turn, Int.add_comm]
  split
  · simp [Lexer.emit, Token.turn, Int.add_comm, Int.sub_eq_add_neg]
  split
  · simp
  · rfl

theorem countOf_scan (s : Lexer) (text : List Char) :
    countOf (s.scan text) = text.foldl Balance.step (countOf s) := by
  induction text generalizing s with
  | nil => rfl
  | cons c text ih => rw [Lexer.scan_cons, ih, countOf_step, List.foldl_cons]

/-- The count of a text is the balance of its tokens. -/
theorem openForms_eq_balance (text : List Char) :
    openForms text = balance (tokenize (String.ofList text)) := by
  have hcount := countOf_scan .start text
  rw [tokenize, String.toList_ofList, Lexer.balance_finish]
  exact congrArg Balance.depth hcount.symm

end Repl

/-! ## Where reading ends -/

/-- How the reading of a row ends.  In front of the end stand whole expressions. -/
inductive Ending (tokens : List Token) : Option Stop → Prop where
  | complete (matched : Matched tokens) : Ending tokens none
  | strayClose (front rest : List Token) (split : tokens = front ++ .closing :: rest)
      (matched : Matched front) : Ending tokens (some (.error (.unreadable .strayClose)))
  | unclosed (front rest : List Token) (split : tokens = front ++ rest) (matched : Matched front)
      (nonempty : rest ≠ []) (isOpen : StaysOpen rest) :
      Ending tokens (some (.error (.unreadable .unclosedForm)))
  | tooDeep : Ending tokens (some .tooDeep)

theorem matched_flatten {rows : List (List Token)} (h : ∀ row ∈ rows, Complete row) :
    Matched rows.flatten := by
  induction rows with
  | nil => exact matched_nil
  | cons row rows ih =>
    obtain ⟨hrow, hrows⟩ := List.forall_mem_cons.1 h
    exact hrow.matched.append (ih hrows)

/-- What stops the reading of one expression. -/
theorem ending_of_readOne {limit : Nat} {front rest : List Token} {stop : Stop}
    (hmatched : Matched front) (hne : rest ≠ []) (h : (readOne limit rest).1 = .error stop) :
    Ending (front ++ rest) (some stop) := by
  match rest with
  | [] => exact absurd rfl hne
  | token :: rest =>
    by_cases hclosing : token = .closing
    · subst hclosing
      cases h
      exact .strayClose front rest rfl hmatched
    have hreading := readOne_reading limit token rest hclosing
    generalize readOne limit (token :: rest) = result at h hreading
    cases hreading with
    | read => cases h
    | unclosed isOpen =>
      cases h
      exact .unclosed front _ rfl hmatched hne isOpen
    | tooDeep =>
      cases h
      exact .tooDeep

theorem readAll_ending (limit : Nat) (tokens : List Token) :
    Ending tokens (readAll limit tokens).2 := by
  obtain ⟨parts, rest, -, htokens, hparts, hstop⟩ :=
    readMany_reads limit tokens.length tokens (Nat.le_refl _)
  have hmatched : Matched (parts.map (·.2)).flatten := by
    apply matched_flatten
    intro row hrow
    obtain ⟨part, hpart, rfl⟩ := List.mem_map.1 hrow
    exact (hparts part hpart).1
  rw [readAll]
  generalize (readMany limit tokens.length tokens).2 = ending at hstop
  rw [htokens]
  cases ending with
  | none =>
    obtain rfl : rest = [] := hstop
    rw [List.append_nil]
    exact .complete hmatched
  | some stop => exact ending_of_readOne hmatched hstop.1 hstop.2

/-- The parentheses of a row that is read to its end match. -/
theorem matched_of_readAll {limit : Nat} {tokens : List Token}
    (h : (readAll limit tokens).2 = none) : Matched tokens := by
  have hending := readAll_ending limit tokens
  rw [h] at hending
  cases hending with
  | complete matched => exact matched

theorem balance_pos_of_unclosed {limit : Nat} {tokens : List Token}
    (h : (readAll limit tokens).2 = some (.error (.unreadable .unclosedForm))) :
    0 < balance tokens := by
  have hending := readAll_ending limit tokens
  rw [h] at hending
  cases hending with
  | unclosed front rest split matched nonempty isOpen =>
    have hopen := isOpen rest List.prefix_rfl nonempty
    rw [split, balance_append, matched.balanced]
    omega

/-! ## Blocks that are submitted -/

namespace Machine

variable {m : Machine} {scope : ScopeId} {tokens : List Token}

theorem evalTokens_of_read (h : (readAll m.depth tokens).2 = none) :
    m.evalTokens scope tokens = m.evalBody scope (readAll m.depth tokens).1 := by
  unfold evalTokens
  generalize readAll m.depth tokens = found at h
  obtain ⟨expressions, ending⟩ := found
  obtain rfl : ending = none := h
  exact bind_pure _

theorem evalTokens_of_stop {stop : Stop} (h : (readAll m.depth tokens).2 = some stop) :
    m.evalTokens scope tokens =
      (do let _ ← m.evalBody scope (readAll m.depth tokens).1; throw stop) := by
  unfold evalTokens
  generalize readAll m.depth tokens = found at h
  obtain ⟨expressions, ending⟩ := found
  obtain rfl : ending = some stop := h
  rfl

/-- Where reading does not stop in this way, the expressions that have been read do. -/
theorem evalBody_of_evalTokens {stop : Stop} {s t : Store}
    (hread : (readAll m.depth tokens).2 ≠ some stop)
    (h : m.evalTokens scope tokens s = .error stop t) :
    m.evalBody scope (readAll m.depth tokens).1 s = .error stop t := by
  cases hstop : (readAll m.depth tokens).2 with
  | none => rwa [evalTokens_of_read hstop] at h
  | some stop' =>
    rw [evalTokens_of_stop hstop] at h
    cases hbody : m.evalBody scope (readAll m.depth tokens).1 s with
    | ok value u =>
      rw [Run.bind_of_ok hbody] at h
      cases h
      exact absurd hstop hread
    | error stop'' u =>
      rw [Run.bind_of_error hbody] at h
      exact h

end Machine

namespace Repl

/-- A line that is not blank completes a block when the count is not positive. -/
theorem openForms_of_receive {block submitted : List Line} {line : Line}
    (h : receive block line = .complete submitted) (hline : isBlankText line = false) :
    openForms (prepare submitted.flatten) ≤ 0 := by
  unfold receive at h
  split at h
  · cases h
  split at h
  · cases h
  split at h
  · rename_i hcomplete
    cases h
    simpa [isComplete, hline] using hcomplete
  · cases h

/-- The count of a text is the number of its opening parentheses less that of its closing ones, as
the lexer finds them.  It is zero where the reader comes to the end, and positive where it breaks
off inside a form.  So in a block that is submitted because of its count the reader does not break
off inside a form, and when the evaluation of such a block stops with this error, it comes from one
of the expressions that have been read. -/
theorem openForms_agrees :
    (∀ text, openForms text = balance (tokenize (String.ofList text))) ∧
    (∀ limit text, (readAll limit (tokenize (String.ofList text))).2 = none → openForms text = 0) ∧
    (∀ limit text, (readAll limit (tokenize (String.ofList text))).2 =
      some (.error (.unreadable .unclosedForm)) → 0 < openForms text) ∧
    ∀ block line submitted, receive block line = .complete submitted → isBlankText line = false →
      let source := String.ofList (prepare submitted.flatten)
      (∀ limit, (readAll limit (tokenize source)).2 ≠
        some (.error (.unreadable .unclosedForm))) ∧
      ∀ (m : Machine) root s t,
        m.evalText root source s = .error (.error (.unreadable .unclosedForm)) t →
        m.evalBody root (readAll m.depth (tokenize source)).1 s =
          .error (.error (.unreadable .unclosedForm)) t := by
  have hunclosed : ∀ limit text, (readAll limit (tokenize (String.ofList text))).2 =
      some (.error (.unreadable .unclosedForm)) → 0 < openForms text := by
    intro limit text h
    rw [openForms_eq_balance]
    exact balance_pos_of_unclosed h
  refine ⟨openForms_eq_balance, ?_, hunclosed, ?_⟩
  · intro limit text h
    rw [openForms_eq_balance]
    exact (matched_of_readAll h).balanced
  · intro block line submitted hreceive hline source
    have hcount := openForms_of_receive hreceive hline
    have hread : ∀ limit, (readAll limit (tokenize source)).2 ≠
        some (.error (.unreadable .unclosedForm)) := by
      intro limit h
      have := hunclosed limit _ h
      omega
    exact ⟨hread, fun m root s t => Machine.evalBody_of_evalTokens (hread m.depth)⟩

end Repl

end TinyLisp
