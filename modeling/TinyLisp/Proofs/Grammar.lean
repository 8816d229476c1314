import Mathlib.Tactic.ByContra
import TinyLisp.Reader

/-!
# The grammar of expressions

A row of tokens is an expression when its parentheses match for the first time
at its end.  The reader takes exactly such rows from the front of its tokens.

There are five groups.

* Balance.  `balance` counts the parentheses of a row.  `Complete` rows are the
  expressions, a row that `StaysOpen` ends inside its first form, and the first
  form of a `TooDeep` row has a place inside too many others.
* Flattening.  `Value.pieces` takes a tree apart again, and `Spells` says that a
  tree is made of the tokens of a row.
* Reading inside open forms.  `openPieces` are the pieces of the forms that are
  open, and `readInside_outcome` is the induction along the tokens.
* One expression.  `Reading` has the three ways in which it can end behind a
  token that is no closing parenthesis.  The lemmas below say when each outcome
  arises.
* All expressions.  `readMany_reads` is the induction along the expressions, and
  `reader_follows_grammar` puts everything together.
-/

namespace TinyLisp

/-! ## Balance -/

/-- How many more opening than closing parentheses a row has. -/
def balance (tokens : List Token) : Int :=
  tokens.count .opening - tokens.count .closing

/-- Every front that is not empty has a form that is still open. -/
def StaysOpen (tokens : List Token) : Prop :=
  ∀ front, front <+: tokens → front ≠ [] → 0 < balance front

/-- An expression: the parentheses match at the end and nowhere before. -/
structure Complete (tokens : List Token) : Prop where
  nonempty : tokens ≠ []
  balanced : balance tokens = 0
  inside : ∀ front, front <+: tokens → front ≠ [] → front ≠ tokens → 0 < balance front

/-- Some place in the first expression is inside more than `limit + 1` forms. -/
def TooDeep (limit : Nat) (tokens : List Token) : Prop :=
  ∃ front, front <+: tokens ∧ StaysOpen front ∧ (limit : Int) + 1 < balance front

/-- What one token adds to the balance. -/
def Token.turn : Token → Int
  | opening => 1
  | closing => -1
  | string _ | atom _ => 0

@[simp] theorem balance_nil : balance [] = 0 := rfl

@[simp] theorem balance_cons (token : Token) (tokens : List Token) :
    balance (token :: tokens) = token.turn + balance tokens := by
  cases token <;> simp [balance, Token.turn] <;> omega

@[simp] theorem balance_append (front rest : List Token) :
    balance (front ++ rest) = balance front + balance rest := by
  simp [balance]
  omega

theorem forall_prefix_cons {P : List Token → Prop} (token : Token) (tokens : List Token) :
    (∀ front, front <+: token :: tokens → P front) ↔
      P [] ∧ ∀ front, front <+: tokens → P (token :: front) := by
  constructor
  · intro h
    exact ⟨h [] List.nil_prefix, fun front hf => h _ ((List.prefix_cons_inj token).2 hf)⟩
  · rintro ⟨hnil, hcons⟩ front hf
    rcases List.prefix_cons_iff.1 hf with rfl | ⟨rest, rfl, hr⟩
    · exact hnil
    · exact hcons rest hr

/-- A row that stays open is no longer than any front at which the parentheses
match. -/
theorem StaysOpen.prefix_of_balanced {front row tokens : List Token} (h : StaysOpen front)
    (hf : front <+: tokens) (hr : row <+: tokens) (hne : row ≠ []) (hb : balance row ≤ 0) :
    front <+: row ∧ front ≠ row := by
  have hshort : ¬ row <+: front := by
    intro hle
    have := h row hle hne
    omega
  rcases List.prefix_or_prefix_of_prefix hf hr with hle | hle
  · exact ⟨hle, fun heq => hshort (heq ▸ List.prefix_rfl)⟩
  · exact absurd hle hshort

/-! ## Flattening -/

/-- A parenthesis, or a tree without parts. -/
inductive Piece where
  | opening
  | closing
  | leaf (value : Value)

/-- What a token is in a tree. -/
def Token.piece : Token → Piece
  | opening => .opening
  | closing => .closing
  | string text => .leaf (.string text)
  | atom text => .leaf (readAtom text)

mutual

/-- A tree taken apart from left to right: a form is its items between
parentheses. -/
def Value.pieces : Value → List Piece
  | .form items => .opening :: Value.piecesOfAll items ++ [.closing]
  | value => [.leaf value]

/-- Trees taken apart one after the other. -/
def Value.piecesOfAll : List Value → List Piece
  | [] => []
  | item :: items => item.pieces ++ Value.piecesOfAll items

end

/-- A tree taken apart is the row, token by token. -/
def Spells (tree : Value) (tokens : List Token) : Prop :=
  tree.pieces = tokens.map Token.piece

theorem piecesOfAll_append (items rest : List Value) :
    Value.piecesOfAll (items ++ rest) = Value.piecesOfAll items ++ Value.piecesOfAll rest := by
  induction items with
  | nil => rfl
  | cons item items ih => simp [Value.piecesOfAll, ih]

/-- What an atom reads as has no parts. -/
theorem pieces_readAtom (text : String) : (readAtom text).pieces = [.leaf (readAtom text)] := by
  rw [readAtom]
  split <;> rfl

/-- The pieces of the forms that are open: their items so far, from the outside
in.  The rows of items are those of `readInside`. -/
def openPieces (items : List Value) : List (List Value) → List Piece
  | [] => .opening :: Value.piecesOfAll items.reverse
  | around :: outer => openPieces around outer ++ .opening :: Value.piecesOfAll items.reverse

/-- One more item of the innermost form. -/
theorem openPieces_cons (item : Value) (items : List Value) (outer : List (List Value)) :
    openPieces (item :: items) outer = openPieces items outer ++ item.pieces := by
  cases outer <;> simp [openPieces, piecesOfAll_append, Value.piecesOfAll]

/-! ## Reading inside open forms -/

/-- The tokens stay inside the `depth` forms that are open in front of them. -/
def OpenWithin (depth : Int) (tokens : List Token) : Prop :=
  ∀ front, front <+: tokens → 0 < depth + balance front

/-- The tokens close the last of `depth` open forms at their end. -/
structure ClosesWithin (depth : Int) (tokens : List Token) : Prop where
  balanced : depth + balance tokens = 0
  inside : ∀ front, front <+: tokens → front ≠ tokens → 0 < depth + balance front

/-- The tokens open no more than `room` forms at one place. -/
def NestsWithin (room : Int) (tokens : List Token) : Prop :=
  ∀ front, front <+: tokens → balance front ≤ room

/-- What reading comes to inside `depth` open forms, of which `before` are the
pieces.  A tree ends where the last of the forms is closed. -/
inductive Outcome (room depth : Int) (before : List Piece) (tokens : List Token) :
    Except Stop Value × List Token → Prop where
  | read (tree : Value) (front rest : List Token) (split : tokens = front ++ rest)
      (closes : ClosesWithin depth front) (nests : NestsWithin room front)
      (spells : tree.pieces = before ++ front.map Token.piece) :
      Outcome room depth before tokens (.ok tree, rest)
  | unclosed (isOpen : OpenWithin depth tokens) (nests : NestsWithin room tokens) :
      Outcome room depth before tokens (.error (.error (.unreadable .unclosedForm)), [])
  | tooDeep (front rest : List Token) (isFront : front <+: tokens)
      (isOpen : OpenWithin depth front) (deep : room < balance front) :
      Outcome room depth before tokens (.error .tooDeep, rest)

theorem OpenWithin.cons {depth : Int} {token : Token} {tokens : List Token} (hd : 0 < depth)
    (h : OpenWithin (depth + token.turn) tokens) : OpenWithin depth (token :: tokens) := by
  rw [OpenWithin, forall_prefix_cons]
  refine ⟨by simpa using hd, fun front hf => ?_⟩
  have := h front hf
  rw [balance_cons]
  omega

theorem ClosesWithin.cons {depth : Int} {token : Token} {tokens : List Token} (hd : 0 < depth)
    (h : ClosesWithin (depth + token.turn) tokens) : ClosesWithin depth (token :: tokens) where
  balanced := by
    have := h.balanced
    rw [balance_cons]
    omega
  inside := by
    rw [forall_prefix_cons]
    refine ⟨fun _ => by simpa using hd, fun front hf hne => ?_⟩
    have := h.inside front hf (by rintro rfl; exact hne rfl)
    rw [balance_cons]
    omega

theorem NestsWithin.cons {room : Int} {token : Token} {tokens : List Token} (hr : 0 ≤ room)
    (h : NestsWithin (room - token.turn) tokens) : NestsWithin room (token :: tokens) := by
  rw [NestsWithin, forall_prefix_cons]
  refine ⟨by simpa using hr, fun front hf => ?_⟩
  have := h front hf
  rw [balance_cons]
  omega

/-- One token in front of an outcome. -/
theorem Outcome.cons {room depth : Int} {before : List Piece} {token : Token}
    {tokens : List Token} {result : Except Stop Value × List Token} (hr : 0 ≤ room)
    (hd : 0 < depth)
    (h : Outcome (room - token.turn) (depth + token.turn) (before ++ [token.piece]) tokens
      result) :
    Outcome room depth before (token :: tokens) result := by
  cases h with
  | read tree front rest split closes nests spells =>
    refine .read tree (token :: front) rest (by simp [split]) (closes.cons hd) (nests.cons hr) ?_
    simp [spells]
  | unclosed isOpen nests => exact .unclosed (isOpen.cons hd) (nests.cons hr)
  | tooDeep front rest isFront isOpen deep =>
    refine .tooDeep (token :: front) rest ((List.prefix_cons_inj token).2 isFront)
      (isOpen.cons hd) ?_
    rw [balance_cons]
    omega

/-- Reading inside open forms ends where the outermost of them is closed, at the
end of the tokens, or where there is no room for one more form. -/
theorem readInside_outcome (room : Nat) (items : List Value) (outer : List (List Value))
    (tokens : List Token) :
    Outcome room (outer.length + 1) (openPieces items outer) tokens
      (readInside room items outer tokens) := by
  fun_induction readInside room items outer tokens with
  | case1 room items outer =>
    refine .unclosed ?_ ?_ <;> intro front hf <;> rw [List.prefix_nil.1 hf] <;> simp
  | case2 room items rest =>
    -- the outermost form is closed by the first token
    refine .read _ [.closing] rest rfl ⟨rfl, ?_⟩ ?_
      (by simp [openPieces, Value.pieces, Token.piece])
    · rw [forall_prefix_cons]
      exact ⟨by simp, fun front hf hne => absurd (by rw [List.prefix_nil.1 hf]) hne⟩
    · rw [NestsWithin, forall_prefix_cons]
      refine ⟨by simp, fun front hf => ?_⟩
      rw [List.prefix_nil.1 hf]
      simp [Token.turn]
  | case3 room items rest around outer ih =>
    refine .cons (by omega) (by simp; omega) ?_
    simpa [Token.turn, Token.piece, openPieces_cons, Value.pieces, openPieces,
      Int.add_neg_cancel_right] using ih
  | case4 items outer rest =>
    refine .tooDeep [.opening] rest (by simp) ?_ (by simp [Token.turn])
    rw [OpenWithin, forall_prefix_cons]
    refine ⟨by simp, fun front hf => ?_⟩
    rw [List.prefix_nil.1 hf]
    simp [Token.turn]
    omega
  | case5 items outer rest room ih =>
    refine .cons (by omega) (by omega) ?_
    simpa [Token.turn, Token.piece, openPieces, Value.piecesOfAll] using ih
  | case6 room items outer text rest ih =>
    refine .cons (by omega) (by omega) ?_
    simpa [Token.turn, Token.piece, openPieces_cons, Value.pieces] using ih
  | case7 room items outer text rest ih =>
    refine .cons (by omega) (by omega) ?_
    simpa [Token.turn, Token.piece, openPieces_cons, pieces_readAtom] using ih

/-! ## One expression -/

theorem staysOpen_opening (tokens : List Token) :
    StaysOpen (.opening :: tokens) ↔ OpenWithin 1 tokens := by
  rw [StaysOpen, forall_prefix_cons]
  simp [OpenWithin, Token.turn]

theorem complete_opening {tokens : List Token} (h : ClosesWithin 1 tokens) :
    Complete (.opening :: tokens) where
  nonempty := by simp
  balanced := by simpa [Token.turn] using h.balanced
  inside := by
    rw [forall_prefix_cons]
    refine ⟨by simp, fun front hf _ hne => ?_⟩
    simpa [Token.turn] using h.inside front hf (by rintro rfl; exact hne rfl)

/-- A token that is no parenthesis is an expression. -/
theorem complete_singleton {token : Token} (h : token.turn = 0) : Complete [token] where
  nonempty := by simp
  balanced := by simp [h]
  inside := by
    rw [forall_prefix_cons]
    refine ⟨by simp, fun front hf _ hne => absurd ?_ hne⟩
    rw [List.prefix_nil.1 hf]

/-- A row that stays open starts with an opening parenthesis. -/
theorem StaysOpen.head {token : Token} {tokens : List Token} (h : StaysOpen (token :: tokens)) :
    token = .opening := by
  have := h [token] (by simp) (by simp)
  cases token <;> simp [Token.turn] at this ⊢

/-- No expression starts with a closing parenthesis. -/
theorem Complete.head_ne {token : Token} {tokens : List Token} (h : Complete (token :: tokens)) :
    token ≠ .closing := by
  rintro rfl
  by_cases ht : tokens = []
  · have := h.balanced
    simp [ht, Token.turn] at this
  · have := h.inside [.closing] (by simp) (by simp) (by simpa using Ne.symm ht)
    simp [Token.turn] at this

/-- Two expressions at the front of the same tokens are one. -/
theorem Complete.unique {row other tokens : List Token} (h : Complete row) (ho : Complete other)
    (hr : row <+: tokens) (hot : other <+: tokens) : row = other := by
  by_contra hne
  rcases List.prefix_or_prefix_of_prefix hr hot with hle | hle
  · have := ho.inside row hle h.nonempty hne
    have := h.balanced
    omega
  · have := h.inside other hle ho.nonempty (Ne.symm hne)
    have := ho.balanced
    omega

/-- The three outcomes of reading a row that starts like an expression. -/
inductive Reading (limit : Nat) (tokens : List Token) : Except Stop Value × List Token → Prop where
  | read (tree : Value) (front rest : List Token) (split : tokens = front ++ rest)
      (complete : Complete front) (shallow : ¬ TooDeep limit tokens) (spells : Spells tree front) :
      Reading limit tokens (.ok tree, rest)
  | unclosed (isOpen : StaysOpen tokens) (shallow : ¬ TooDeep limit tokens) :
      Reading limit tokens (.error (.error (.unreadable .unclosedForm)), [])
  | tooDeep (rest : List Token) (deep : TooDeep limit tokens) :
      Reading limit tokens (.error .tooDeep, rest)

/-- An expression whose forms are nested within the limit is not too deep. -/
theorem not_tooDeep {limit : Nat} (tokens rest : List Token)
    (h : ∀ front, StaysOpen (.opening :: front) → .opening :: front <+: .opening :: tokens ++ rest →
      balance front ≤ limit) :
    ¬ TooDeep limit (.opening :: tokens ++ rest) := by
  rintro ⟨front, hf, hopen, hdeep⟩
  match front with
  | [] =>
    simp at hdeep
    omega
  | token :: front =>
    obtain rfl := hopen.head
    have := h front hopen hf
    simp [Token.turn] at hdeep
    omega

theorem readOne_opening (limit : Nat) (tokens : List Token) :
    Reading limit (.opening :: tokens) (readOne limit (.opening :: tokens)) := by
  have h : Outcome limit 1 [.opening] tokens (readOne limit (.opening :: tokens)) := by
    simpa [openPieces, Value.piecesOfAll, readOne] using readInside_outcome limit [] [] tokens
  generalize readOne limit (.opening :: tokens) = result at h ⊢
  cases h with
  | read tree front rest split closes nests spells =>
    have hcomplete := complete_opening closes
    refine .read tree (.opening :: front) rest (by simp [split]) hcomplete ?_ ?_
    · subst split
      refine not_tooDeep _ _ fun part hopen hf => nests part ?_
      have hb := hcomplete.balanced
      have hle := (hopen.prefix_of_balanced hf (List.prefix_append _ _) (by simp) (by omega)).1
      exact (List.prefix_cons_inj _).1 hle
    · simp [Spells, spells, Token.piece]
  | unclosed isOpen nests =>
    refine .unclosed ((staysOpen_opening tokens).2 isOpen) ?_
    have : ¬ TooDeep limit (.opening :: tokens ++ []) :=
      not_tooDeep tokens [] fun part _ hf =>
        nests part (by simpa [List.prefix_cons_inj] using hf)
    simpa using this
  | tooDeep front rest isFront isOpen deep =>
    refine .tooDeep rest ⟨.opening :: front, ?_, (staysOpen_opening front).2 isOpen, ?_⟩
    · exact (List.prefix_cons_inj _).2 isFront
    · simp [Token.turn]
      omega

/-- A row that does not stay open from its first token on is never too deep. -/
theorem not_tooDeep_of_head {limit : Nat} {token : Token} {tokens : List Token}
    (h : token ≠ .opening) : ¬ TooDeep limit (token :: tokens) := by
  rintro ⟨front, hf, hopen, hdeep⟩
  rcases List.prefix_cons_iff.1 hf with rfl | ⟨front, rfl, -⟩
  · simp at hdeep
    omega
  · exact h hopen.head

theorem readOne_reading (limit : Nat) (token : Token) (tokens : List Token)
    (h : token ≠ .closing) : Reading limit (token :: tokens) (readOne limit (token :: tokens)) := by
  match token with
  | .closing => exact absurd rfl h
  | .opening => exact readOne_opening limit tokens
  | .string text =>
    exact .read _ [.string text] tokens rfl (complete_singleton rfl)
      (not_tooDeep_of_head (by simp)) rfl
  | .atom text =>
    exact .read _ [.atom text] tokens rfl (complete_singleton rfl)
      (not_tooDeep_of_head (by simp)) (pieces_readAtom text)

/-- Reading gives a tree exactly where an expression stands at the front. -/
theorem readOne_complete (limit : Nat) {row : List Token} (rest : List Token) (h : Complete row) :
    (∃ tree, readOne limit (row ++ rest) = (.ok tree, rest) ∧ Spells tree row) ∨
      (readOne limit (row ++ rest)).1 = .error .tooDeep := by
  match row with
  | [] => exact absurd rfl h.nonempty
  | token :: row =>
    have hr := readOne_reading limit token (row ++ rest) h.head_ne
    rw [List.cons_append]
    generalize readOne limit (token :: (row ++ rest)) = result at hr ⊢
    cases hr with
    | read tree front left split complete shallow spells =>
      have hrow : token :: row <+: token :: (row ++ rest) := by simp
      obtain rfl := complete.unique h ⟨left, split.symm⟩ hrow
      obtain rfl : rest = left := by simpa using split
      exact .inl ⟨tree, rfl, spells⟩
    | unclosed isOpen =>
      have := isOpen (token :: row) (by simp) (by simp)
      have := h.balanced
      omega
    | tooDeep => exact .inr rfl

theorem readOne_eq_noExpression_iff (limit : Nat) (tokens rest : List Token) :
    readOne limit tokens = (.error (.error (.unreadable .noExpression)), rest) ↔
      tokens = [] ∧ rest = [] := by
  match tokens with
  | [] => simp [readOne, eq_comm]
  | .closing :: tokens => simp [readOne]
  | .string _ :: tokens | .atom _ :: tokens => simp [readOne]
  | .opening :: tokens =>
    have h := readOne_opening limit tokens
    generalize readOne limit (.opening :: tokens) = result at h ⊢
    cases h <;> simp

theorem readOne_eq_strayClose_iff (limit : Nat) (tokens rest : List Token) :
    readOne limit tokens = (.error (.error (.unreadable .strayClose)), rest) ↔
      tokens = .closing :: rest := by
  match tokens with
  | [] => simp [readOne]
  | .closing :: tokens => simp [readOne]
  | .string _ :: tokens | .atom _ :: tokens => simp [readOne]
  | .opening :: tokens =>
    have h := readOne_opening limit tokens
    generalize readOne limit (.opening :: tokens) = result at h ⊢
    cases h <;> simp

theorem readOne_eq_unclosedForm_iff (limit : Nat) (tokens rest : List Token) :
    readOne limit tokens = (.error (.error (.unreadable .unclosedForm)), rest) ↔
      tokens.head? = some .opening ∧ StaysOpen tokens ∧ ¬ TooDeep limit tokens ∧ rest = [] := by
  match tokens with
  | [] => simp [readOne]
  | .closing :: tokens => simp [readOne]
  | .string _ :: tokens | .atom _ :: tokens => simp [readOne]
  | .opening :: tokens =>
    have h := readOne_opening limit tokens
    generalize readOne limit (.opening :: tokens) = result at h ⊢
    cases h with
    | read tree front left split complete =>
      -- the expression itself is a front that does not stay open
      simp only [Prod.mk.injEq, reduceCtorEq, false_and, List.head?_cons, true_and, false_iff]
      rintro ⟨hopen, -⟩
      have := hopen front ⟨left, split.symm⟩ complete.nonempty
      have := complete.balanced
      omega
    | unclosed isOpen shallow => simp [isOpen, shallow, eq_comm]
    | tooDeep _ deep => simp [deep]

theorem readOne_eq_tooDeep_iff (limit : Nat) (tokens : List Token) :
    (readOne limit tokens).1 = .error .tooDeep ↔ TooDeep limit tokens := by
  match tokens with
  | [] =>
    refine iff_of_false (by simp [readOne]) ?_
    rintro ⟨front, hf, -, hdeep⟩
    rw [List.prefix_nil.1 hf] at hdeep
    simp at hdeep
    omega
  | .closing :: tokens | .string _ :: tokens | .atom _ :: tokens =>
    exact iff_of_false (by simp [readOne]) (not_tooDeep_of_head (by simp))
  | .opening :: tokens =>
    have h := readOne_opening limit tokens
    generalize readOne limit (.opening :: tokens) = result at h ⊢
    cases h with
    | read _ _ _ _ _ shallow => simp [shallow]
    | unclosed _ shallow => simp [shallow]
    | tooDeep _ deep => simp [deep]

/-- Where reading does not fail, its tree is the shortest row at the front in
which the parentheses match. -/
theorem exists_readOne_ok {limit : Nat} {tokens : List Token} (hne : tokens ≠ [])
    (hclose : tokens.head? ≠ some .closing)
    (hopen : ¬ (tokens.head? = some .opening ∧ StaysOpen tokens))
    (hdeep : ¬ TooDeep limit tokens) :
    ∃ tree front rest, readOne limit tokens = (.ok tree, rest) ∧ tokens = front ++ rest ∧
      Complete front ∧ Spells tree front ∧
      ∀ row, row <+: tokens → row ≠ [] → balance row = 0 → front <+: row := by
  match tokens with
  | [] => exact absurd rfl hne
  | token :: tokens =>
    have h := readOne_reading limit token tokens (by simpa using hclose)
    generalize readOne limit (token :: tokens) = result at h ⊢
    cases h with
    | read tree front rest split complete shallow spells =>
      refine ⟨tree, front, rest, rfl, split, complete, spells, fun row hrow hnil hb => ?_⟩
      by_contra hlonger
      rcases List.prefix_or_prefix_of_prefix hrow ⟨rest, split.symm⟩ with hle | hle
      · have := complete.inside row hle hnil (by rintro rfl; exact hlonger List.prefix_rfl)
        omega
      · exact hlonger hle
    | unclosed isOpen => exact absurd ⟨by simp [isOpen.head], isOpen⟩ hopen
    | tooDeep _ deep => exact absurd deep hdeep

/-! ## All expressions -/

/-- The expressions that are read stand one behind the other at the front of
the tokens, and the reading stops at the first row that cannot be read. -/
theorem readMany_reads (limit count : Nat) (tokens : List Token) (h : tokens.length ≤ count) :
    ∃ (parts : List (Value × List Token)) (rest : List Token),
      (readMany limit count tokens).1 = parts.map (·.1) ∧
      tokens = (parts.map (·.2)).flatten ++ rest ∧
      (∀ part ∈ parts, Complete part.2 ∧ Spells part.1 part.2) ∧
      match (readMany limit count tokens).2 with
      | none => rest = []
      | some stop => rest ≠ [] ∧ (readOne limit rest).1 = .error stop := by
  induction count generalizing tokens with
  | zero =>
    obtain rfl := List.length_eq_zero_iff.1 (Nat.le_zero.1 h)
    exact ⟨[], [], by simp [readMany]⟩
  | succ count ih =>
    match tokens with
    | [] => exact ⟨[], [], by simp [readMany]⟩
    | token :: tokens =>
      rw [readMany]
      have hlength := length_readOne limit (List.cons_ne_nil token tokens)
      rcases hr : readOne limit (token :: tokens) with ⟨_ | tree, left⟩
      · exact ⟨[], token :: tokens, by simp [hr]⟩
      · have hne : token ≠ .closing := by
          rintro rfl
          simp [readOne] at hr
        have hreading := readOne_reading limit token tokens hne
        rw [hr] at hreading hlength
        cases hreading with
        | read _ front _ split complete _ spells =>
          obtain ⟨parts, rest, htrees, htokens, hparts, hstop⟩ :=
            ih left (by simp at h hlength; omega)
          refine ⟨(tree, front) :: parts, rest, ?_, ?_, ?_, ?_⟩
          · simpa using htrees
          · rw [split, htokens]
            simp
          · exact List.forall_mem_cons.2 ⟨⟨complete, spells⟩, hparts⟩
          · simpa using hstop

/-- Expressions one behind the other are all read. -/
theorem readMany_complete (limit count : Nat) (rows : List (List Token))
    (h : ∀ row ∈ rows, Complete row) :
    (readMany limit count rows.flatten).2 = none ∨
      (readMany limit count rows.flatten).2 = some .tooDeep := by
  induction rows generalizing count with
  | nil => cases count <;> simp [readMany]
  | cons row rows ih =>
    cases count with
    | zero => simp [readMany]
    | succ count =>
      have hrow := h row (by simp)
      match row with
      | [] => exact absurd rfl hrow.nonempty
      | token :: row =>
        rw [List.flatten_cons, List.cons_append, readMany]
        rcases readOne_complete limit rows.flatten hrow with
          ⟨tree, hread, -⟩ | hdeep
        · rw [List.cons_append] at hread
          simpa [hread] using ih count fun row hr => h row (by simp [hr])
        · rw [List.cons_append] at hdeep
          generalize readOne limit (token :: (row ++ rows.flatten)) = result at hdeep
          obtain ⟨_, left⟩ := result
          obtain rfl := hdeep
          simp

/-- Unless it stops at a form that is nested too deep, reading comes to the end
of the tokens when they are expressions one behind the other, and only then. -/
theorem readAll_eq_none_iff {limit : Nat} {tokens : List Token}
    (h : (readAll limit tokens).2 ≠ some .tooDeep) :
    (readAll limit tokens).2 = none ↔
      ∃ rows : List (List Token), (∀ row ∈ rows, Complete row) ∧ tokens = rows.flatten := by
  constructor
  · intro hnone
    obtain ⟨parts, rest, -, htokens, hparts, hstop⟩ :=
      readMany_reads limit tokens.length tokens (Nat.le_refl _)
    rw [readAll] at hnone
    rw [hnone] at hstop
    refine ⟨parts.map (·.2), ?_, by simpa [hstop] using htokens⟩
    intro row hrow
    obtain ⟨part, hpart, rfl⟩ := List.mem_map.1 hrow
    exact (hparts part hpart).1
  · rintro ⟨rows, hrows, htokens⟩
    have := readMany_complete limit tokens.length rows hrows
    rw [← htokens] at this
    exact this.resolve_right h

/-! ## The reader -/

/-- The reader takes from the front of its tokens exactly the shortest row in
which the parentheses match, and its tree is that row.  It fails on no tokens,
at a closing parenthesis, of which it takes just this one, and on tokens that
never close their first form, of which it takes all; and where a form is nested
too deep.  All expressions are read in this way one behind the other, up to the
first row that cannot be read. -/
theorem reader_follows_grammar (limit : Nat) (tokens : List Token) :
    ((readOne limit tokens).1 = .error .tooDeep ↔ TooDeep limit tokens) ∧
    (∀ rest, readOne limit tokens = (.error (.error (.unreadable .noExpression)), rest) ↔
      tokens = [] ∧ rest = []) ∧
    (∀ rest, readOne limit tokens = (.error (.error (.unreadable .strayClose)), rest) ↔
      tokens = .closing :: rest) ∧
    (∀ rest, readOne limit tokens = (.error (.error (.unreadable .unclosedForm)), rest) ↔
      tokens.head? = some .opening ∧ StaysOpen tokens ∧ ¬ TooDeep limit tokens ∧ rest = []) ∧
    (tokens ≠ [] → tokens.head? ≠ some .closing →
      ¬ (tokens.head? = some .opening ∧ StaysOpen tokens) → ¬ TooDeep limit tokens →
      ∃ tree front rest, readOne limit tokens = (.ok tree, rest) ∧ tokens = front ++ rest ∧
        Complete front ∧ Spells tree front ∧
        ∀ row, row <+: tokens → row ≠ [] → balance row = 0 → front <+: row) ∧
    (∃ (parts : List (Value × List Token)) (rest : List Token),
      (readAll limit tokens).1 = parts.map (·.1) ∧
      tokens = (parts.map (·.2)).flatten ++ rest ∧
      (∀ part ∈ parts, Complete part.2 ∧ Spells part.1 part.2) ∧
      match (readAll limit tokens).2 with
      | none => rest = []
      | some stop => rest ≠ [] ∧ (readOne limit rest).1 = .error stop) ∧
    ((readAll limit tokens).2 ≠ some .tooDeep →
      ((readAll limit tokens).2 = none ↔
        ∃ rows : List (List Token), (∀ row ∈ rows, Complete row) ∧ tokens = rows.flatten)) ∧
    SyntaxProblem.strayClose.message = "unexpected )" ∧
    SyntaxProblem.unclosedForm.message = "unexpected EOF while reading list" :=
  ⟨readOne_eq_tooDeep_iff limit tokens, readOne_eq_noExpression_iff limit tokens,
    readOne_eq_strayClose_iff limit tokens, readOne_eq_unclosedForm_iff limit tokens,
    exists_readOne_ok, readMany_reads limit tokens.length tokens (Nat.le_refl _),
    readAll_eq_none_iff, rfl, rfl⟩

end TinyLisp
