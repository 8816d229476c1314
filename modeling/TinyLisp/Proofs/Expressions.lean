import TinyLisp.Proofs.Grammar
import TinyLisp.Proofs.RoundTrip
import TinyLisp.Proofs.Writing

/-!
# What is written is one expression

No string and no name can get out of its quotes, so the text of a value is cut into
the tokens of one expression, neither more nor less.

There are four groups.

* `Matched`: rows in which the parentheses match.  They may stand one behind the other,
  and in parentheses they are one expression.
* `Whole`: texts that are cut into one expression wherever they stand.
* `IsRuntime`: the values that evaluation works with.
* `whole_of_write`: their texts.
-/

namespace TinyLisp

/-! ## Rows in which the parentheses match -/

/-- The parentheses match at the end, and no front closes more than it has opened. -/
structure Matched (tokens : List Token) : Prop where
  balanced : balance tokens = 0
  inside : ∀ front, front <+: tokens → 0 ≤ balance front

theorem matched_nil : Matched [] where
  balanced := rfl
  inside front hf := by
    rw [List.prefix_nil.1 hf]
    exact Int.le_refl _

theorem Complete.matched {tokens : List Token} (h : Complete tokens) : Matched tokens where
  balanced := h.balanced
  inside front hf := by
    by_cases hne : front = []
    · subst hne
      exact Int.le_refl _
    · by_cases heq : front = tokens
      · subst heq
        exact Int.le_of_eq h.balanced.symm
      · exact Int.le_of_lt (h.inside front hf hne heq)

theorem Matched.append {tokens tokens' : List Token} (h : Matched tokens) (h' : Matched tokens') :
    Matched (tokens ++ tokens') where
  balanced := by rw [balance_append, h.balanced, h'.balanced]; rfl
  inside front hf := by
    rcases List.prefix_or_prefix_of_prefix hf (List.prefix_append tokens tokens') with hle | hle
    · exact h.inside front hle
    · obtain ⟨rest, rfl⟩ := hle
      have hrest := h'.inside rest ((List.prefix_append_right_inj tokens).1 hf)
      rw [balance_append, h.balanced]
      omega

/-- In parentheses, such a row is one expression. -/
theorem Matched.complete {tokens : List Token} (h : Matched tokens) :
    Complete (.opening :: (tokens ++ [.closing])) := by
  refine complete_opening ⟨?_, ?_⟩
  · rw [balance_append, h.balanced]
    rfl
  · intro front hf hne
    rcases List.prefix_concat_iff.1 hf with heq | hf
    · exact absurd heq hne
    · have := h.inside front hf
      omega

/-! ## Texts that are one expression -/

/-- The text is cut into one expression between any others. -/
def Whole (text : List Char) : Prop :=
  ∃ tokens, Lexer.Lexes text tokens ∧ Complete tokens

theorem whole_name {name : List Char} (h : isBlankText name = false) :
    Whole (escapeSymbol name) := by
  have hlexes := Lexer.lexes_escapeSymbol name
  rw [Lexer.atomsOf, h] at hlexes
  exact ⟨_, hlexes, complete_singleton rfl⟩

theorem whole_ordinary {text : List Char} (h : Ordinary text) (hne : text ≠ []) : Whole text := by
  rw [← Value.escapeSymbol_ordinary h]
  exact whole_name (Value.isBlankText_ordinary h hne)

theorem whole_quoteString (text : List Char) : Whole (quoteString text) :=
  ⟨_, Lexer.lexes_quoteString text, complete_singleton rfl⟩

theorem whole_parenthesised {text : List Char} {tokens : List Token}
    (h : Lexer.Lexes text tokens) (hmatched : Matched tokens) : Whole (parenthesised text) :=
  ⟨_, Lexer.lexes_parenthesised h, hmatched.complete⟩

/-- Expressions with a space between each two of them. -/
theorem exists_tokens_joinWith {texts : List (List Char)} (h : ∀ text ∈ texts, Whole text) :
    ∃ tokens, Lexer.Lexes (joinWith " " texts) tokens ∧ Matched tokens := by
  induction texts with
  | nil => exact ⟨[], Lexer.lexes_nil, matched_nil⟩
  | cons text texts ih =>
    obtain ⟨⟨tokens, hlexes, hcomplete⟩, hrest⟩ := List.forall_mem_cons.1 h
    obtain ⟨tokens', hlexes', hmatched'⟩ := ih hrest
    cases texts with
    | nil => exact ⟨tokens, by simpa [joinWith] using hlexes, hcomplete.matched⟩
    | cons next texts =>
      rw [Value.joinWith_space]
      exact ⟨_, Lexer.lexes_space hlexes hlexes', hcomplete.matched.append hmatched'⟩

/-! ## Values that evaluation works with -/

namespace Value

/-- A value that is no piece of source, with symbols that are more than white space. -/
inductive IsRuntime : Value → Prop where
  | nil : IsRuntime nil
  | undefined : IsRuntime undefined
  | bool (value : Bool) : IsRuntime (bool value)
  | int (value : Int) : IsRuntime (int value)
  | float (value : Float) : IsRuntime (float value)
  | string (text : String) : IsRuntime (string text)
  | symbol {name : String} (hname : isBlankText name.toList = false) : IsRuntime (symbol name)
  | pair (cell : Identity) {head tail : Value} (hhead : IsRuntime head) (htail : IsRuntime tail) :
      IsRuntime (pair cell head tail)
  | procedure (identity : Identity) (parameters : List String) (body : List Value)
      (scope : ScopeId) : IsRuntime (procedure identity parameters body scope)
  | native (identity : Identity) (name : String) (operation : Operation) :
      IsRuntime (native identity name operation)
  | callback (identity : Identity) (target : Value) : IsRuntime (callback identity target)

theorem IsRuntime.of_toList? {value : Value} {items : List Value} (h : value.IsRuntime)
    (hitems : value.toList? = some items) : ∀ item ∈ items, item.IsRuntime := by
  induction items generalizing value with
  | nil =>
    intro item hitem
    cases hitem
  | cons item items ih =>
    obtain ⟨cell, tail, rfl, htail⟩ := toList?_eq_cons hitems
    cases h with
    | pair _ hhead htail' => exact List.forall_mem_cons.2 ⟨hhead, ih htail' htail⟩

theorem whole_of_write {value : Value} (h : value.IsRuntime) {limit : Nat} {text : List Char}
    (hwrite : value.write limit = .ok text) : Whole text := by
  induction limit generalizing value text with
  | zero => cases hwrite
  | succ limit ih =>
    cases h with
    | nil =>
      cases hwrite
      exact whole_parenthesised Lexer.lexes_nil matched_nil
    | undefined =>
      cases hwrite
      exact whole_ordinary (by decide) (by decide)
    | bool value =>
      cases hwrite
      cases value
      · exact whole_ordinary (by decide) (by decide)
      · exact whole_ordinary (by decide) (by decide)
    | int n =>
      replace hwrite : writeInteger n = .ok text := hwrite
      unfold writeInteger at hwrite
      split at hwrite
      · cases hwrite
        exact whole_ordinary (Double.ordinary_integerText n) (integerText_ne_nil n)
      · cases hwrite
    | float value =>
      cases hwrite
      exact whole_ordinary (Double.ordinary_text value) (Double.text_ne_nil value)
    | string text =>
      cases hwrite
      exact whole_quoteString text.toList
    | symbol hname =>
      cases hwrite
      exact whole_name hname
    | procedure =>
      cases hwrite
      exact whole_ordinary (by decide) (by decide)
    | native | callback =>
      cases hwrite
      exact whole_ordinary (by decide) (by decide)
    | @pair cell head tail hhead htail =>
      rw [write] at hwrite
      split at hwrite
      · rename_i items hitems
        obtain ⟨texts, htexts, heq⟩ := Attempt.bind_eq_ok_iff.1 hwrite
        cases heq
        have hparts : ∀ text ∈ texts, Whole text := by
          intro text htext
          obtain ⟨item, hitem, hf⟩ := Attempt.exists_of_mem_mapM htexts htext
          exact ih ((IsRuntime.pair cell hhead htail).of_toList? hitems item hitem) hf
        obtain ⟨tokens, hlexes, hmatched⟩ := exists_tokens_joinWith hparts
        exact whole_parenthesised hlexes hmatched
      · obtain ⟨first, hfirst, hrest⟩ := Attempt.bind_eq_ok_iff.1 hwrite
        obtain ⟨second, hsecond, hrest⟩ := Attempt.bind_eq_ok_iff.1 hrest
        cases hrest
        obtain ⟨tokens, hlexes, hcomplete⟩ := ih hhead hfirst
        obtain ⟨tokens', hlexes', hcomplete'⟩ := ih htail hsecond
        have hdot : Whole ['.'] := whole_ordinary (by decide) (by decide)
        obtain ⟨dot, hlexesDot, hcompleteDot⟩ := hdot
        have hrow := Lexer.lexes_space (Lexer.lexes_space hlexes hlexesDot) hlexes'
        have hmatched := (hcomplete.matched.append hcompleteDot.matched).append hcomplete'.matched
        have htext : first ++ " . ".toList ++ second =
            (first ++ ' ' :: ['.']) ++ ' ' :: second := by
          simp
        rw [htext]
        exact whole_parenthesised hrow hmatched

end Value

end TinyLisp
