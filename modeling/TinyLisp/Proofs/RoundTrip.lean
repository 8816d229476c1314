import TinyLisp.Proofs.Notation
import TinyLisp.Proofs.Scanning
import TinyLisp.Proofs.Syntax
import TinyLisp.Reader

/-!
# Reading printed syntax back

A syntax tree is printed as source text and read again.  What is read is the
same tree just when each leaf, on its own, is read as itself: a leaf that is
lost or taken for another one is never made up for by its neighbours.

There are four groups.

* `ReadsBack`: the leaves that are read as themselves.
* `tokens` and `exists_source`: the tokens that a tree is printed as.
* `reread` and `readOne_tokens`: what is read from these tokens.
* `reread_eq_self`: when that is the tree itself, and `source_reads_back`, which
  puts the two ways together.
-/

namespace TinyLisp.Value

/-! ## Leaves -/

/-- A leaf that is read as itself: a finite number other than the negative zero,
any string, or a name that is neither empty nor a numeral and has no white space
at its ends. -/
def ReadsBack : Value → Prop
  | float value => value.isFinite = true ∧ value ≠ -0.0
  | string _ => True
  | identifier name => name ≠ "" ∧ trimmed name = name ∧ ¬ IsNumeral name.toList
  | _ => False

theorem dropWhile_blank {text : List Char} (h : isBlankText text = true) :
    text.dropWhile isBlank = [] := by
  induction text with
  | nil => rfl
  | cons c text ih =>
    simp only [isBlankText, List.all_cons, Bool.and_eq_true] at h
    rw [List.dropWhile_cons_of_pos h.1, ih h.2]

theorem trim_blank {text : List Char} (h : isBlankText text = true) : trim text = [] := by
  rw [trim, dropWhile_blank h]
  rfl

theorem dropWhile_ordinary {text : List Char} (h : ∀ c ∈ text, isBlank c = false) :
    text.dropWhile isBlank = text := by
  match text with
  | [] => rfl
  | c :: text => rw [List.dropWhile_cons_of_neg (by simp [h c (by simp)])]

theorem trim_ordinary {text : List Char} (h : Ordinary text) : trim text = text := by
  rw [trim, dropWhile_ordinary fun c hc => (h c hc).2,
    dropWhile_ordinary fun c hc => (h c (List.mem_reverse.1 hc)).2, List.reverse_reverse]

/-- The text of a number is cut into one atom. -/
theorem escapeSymbol_ordinary {text : List Char} (h : Ordinary text) :
    escapeSymbol text = text := by
  induction text with
  | nil => rfl
  | cons c text ih =>
    obtain ⟨hc, htext⟩ := ordinary_cons.1 h
    have ih := ih htext
    rw [escapeSymbol] at ih ⊢
    rw [List.flatMap_cons, ih, escapeInSymbol, if_neg (by simp [hc])]
    rfl

theorem isBlankText_ordinary {text : List Char} (h : Ordinary text) (hne : text ≠ []) :
    isBlankText text = false := by
  match text with
  | [] => exact absurd rfl hne
  | c :: text => simp [isBlankText, (h c (by simp)).2]

theorem readAtom_eq_float {text : String} {value : Float} :
    readAtom text = float value ↔ parseNumber? text.toList = some value := by
  rw [readAtom]
  cases parseNumber? text.toList <;> simp

theorem readAtom_eq_identifier {text name : String} :
    readAtom text = identifier name ↔ parseNumber? text.toList = none ∧ trimmed text = name := by
  rw [readAtom]
  cases parseNumber? text.toList <;> simp

theorem readAtom_number {value : Float} :
    readAtom (String.ofList (Double.text value)) = float value ↔ (float value).ReadsBack := by
  rw [readAtom_eq_float, String.toList_ofList, parseNumber?,
    trim_ordinary (Double.ordinary_text value), Double.read?_text, ReadsBack]

theorem readAtom_name {name : String} (h : isBlankText name.toList = false) :
    readAtom name = identifier name ↔ (identifier name).ReadsBack := by
  have hne : name ≠ "" := by
    rintro rfl
    cases h
  rw [readAtom_eq_identifier, ReadsBack, parseNumber?, ← Numeral.isSome_read?]
  constructor
  · rintro ⟨hnumber, htrim⟩
    have htext : trim name.toList = name.toList := by rw [← toList_trimmed, htrim]
    rw [htext] at hnumber
    refine ⟨hne, htrim, ?_⟩
    rw [Option.map_eq_none_iff] at hnumber
    simp [hnumber]
  · rintro ⟨-, htrim, hnumber⟩
    have htext : trim name.toList = name.toList := by rw [← toList_trimmed, htrim]
    rw [htext]
    simpa [htrim] using hnumber

/-! ## Printing -/

mutual

/-- The tokens that a tree is printed as. -/
def tokens : Value → List Token
  | form items => .opening :: (tokensOfAll items ++ [.closing])
  | string text => [.string text]
  | identifier name => Lexer.atomsOf name.toList
  | float value => [.atom (String.ofList (Double.text value))]
  | _ => []

/-- The tokens that several trees are printed as. -/
def tokensOfAll : List Value → List Token
  | [] => []
  | item :: items => tokens item ++ tokensOfAll items

end

theorem joinWith_space (text next : List Char) (texts : List (List Char)) :
    joinWith " " (text :: next :: texts) = text ++ ' ' :: joinWith " " (next :: texts) := by
  simp [joinWith, List.intercalate, List.intersperse]

/-- No text is printed only where there is no tree. -/
theorem nil_of_mapM_nil {limit : Nat} {items : List Value}
    (h : items.mapM (source limit) = .ok []) : items = [] := by
  cases items with
  | nil => rfl
  | cons item items =>
    rw [List.mapM_cons] at h
    cases hitem : item.source limit with
    | error stop =>
      rw [hitem] at h
      cases h
    | ok text =>
      cases hitems : items.mapM (source limit) with
      | error stop =>
        rw [hitem, hitems] at h
        cases h
      | ok texts =>
        rw [hitem, hitems] at h
        cases h

/-- Trees that are printed one by one are printed in a row. -/
theorem exists_texts (limit : Nat) {items : List Value}
    (h : ∀ item ∈ items, ∃ text, item.source limit = .ok text ∧ Lexer.Lexes text item.tokens) :
    ∃ texts, items.mapM (source limit) = .ok texts ∧
      Lexer.Lexes (joinWith " " texts) (tokensOfAll items) := by
  induction items with
  | nil => exact ⟨[], rfl, Lexer.lexes_nil⟩
  | cons item items ih =>
    obtain ⟨text, hsource, hlexes⟩ := h item (by simp)
    obtain ⟨texts, hsources, hlexesAll⟩ := ih fun item hitem => h item (by simp [hitem])
    have hmap : (item :: items).mapM (source limit) = .ok (text :: texts) := by
      rw [List.mapM_cons, hsource, hsources]
      rfl
    refine ⟨text :: texts, hmap, ?_⟩
    rw [tokensOfAll]
    cases texts with
    | nil =>
      obtain rfl := nil_of_mapM_nil hsources
      rw [tokensOfAll, List.append_nil]
      simpa [joinWith] using hlexes
    | cons next texts =>
      rw [joinWith_space]
      exact Lexer.lexes_space hlexes hlexesAll

/-- A syntax tree is printed as text that is cut into its tokens. -/
theorem exists_source {tree : Value} (h : tree.IsSyntax) {limit : Nat}
    (hdepth : tree.depth ≤ limit) :
    ∃ text, tree.source limit = .ok text ∧ Lexer.Lexes text tree.tokens := by
  induction h generalizing limit with
  | float value =>
    cases limit with
    | zero => exact absurd hdepth (Nat.not_le.2 (depth_pos _))
    | succ limit =>
      have hordinary := Double.ordinary_text value
      have hlexes := Lexer.lexes_escapeSymbol (Double.text value)
      rw [escapeSymbol_ordinary hordinary, Lexer.atomsOf,
        isBlankText_ordinary hordinary (Double.text_ne_nil value)] at hlexes
      exact ⟨Double.text value, rfl, hlexes⟩
  | string text =>
    cases limit with
    | zero => exact absurd hdepth (Nat.not_le.2 (depth_pos _))
    | succ limit =>
      have hlexes := Lexer.lexes_quoteString text.toList
      rw [String.ofList_toList] at hlexes
      exact ⟨quoteString text.toList, rfl, hlexes⟩
  | identifier name =>
    cases limit with
    | zero => exact absurd hdepth (Nat.not_le.2 (depth_pos _))
    | succ limit =>
      exact ⟨escapeSymbol name.toList, rfl, Lexer.lexes_escapeSymbol name.toList⟩
  | @form items hitems ih =>
    cases limit with
    | zero => exact absurd hdepth (Nat.not_le.2 (depth_pos _))
    | succ limit =>
      rw [depth] at hdepth
      have hparts : ∀ item ∈ items, ∃ text, item.source limit = .ok text ∧
          Lexer.Lexes text item.tokens := by
        intro item hitem
        have := depth_le_depthOfAll hitem
        exact ih item hitem (by omega)
      obtain ⟨texts, hsources, hlexes⟩ := exists_texts limit hparts
      refine ⟨parenthesised (joinWith " " texts), ?_, Lexer.lexes_parenthesised hlexes⟩
      rw [source, hsources]
      rfl

/-! ## Reading -/

mutual

/-- What is read from the tokens of a tree: nothing for a name of white space only,
and otherwise one tree. -/
def reread : Value → List Value
  | form items => [form (rereadAll items)]
  | identifier name => if isBlankText name.toList then [] else [readAtom name]
  | float value => [readAtom (String.ofList (Double.text value))]
  | value => [value]

/-- What is read from the tokens of several trees. -/
def rereadAll : List Value → List Value
  | [] => []
  | item :: items => reread item ++ rereadAll items

end

/-- Reading inside a form goes over the tokens of trees that are read one by one. -/
theorem readInside_tokensOfAll {room : Nat} {items : List Value}
    (h : ∀ item ∈ items, ∀ (found : List Value) (outer : List (List Value)) (rest : List Token),
      readInside room found outer (item.tokens ++ rest) =
        readInside room (item.reread.reverse ++ found) outer rest)
    (found : List Value) (outer : List (List Value)) (rest : List Token) :
    readInside room found outer (tokensOfAll items ++ rest) =
      readInside room ((rereadAll items).reverse ++ found) outer rest := by
  induction items generalizing found with
  | nil => rfl
  | cons item items ih =>
    rw [tokensOfAll, rereadAll, List.append_assoc, h item (by simp),
      ih fun item hitem => h item (by simp [hitem])]
    simp

/-- Reading inside a form goes over the tokens of one tree. -/
theorem readInside_tokens {tree : Value} (h : tree.IsSyntax) {room : Nat}
    (hdepth : tree.depth ≤ room)
    (found : List Value) (outer : List (List Value)) (rest : List Token) :
    readInside room found outer (tree.tokens ++ rest) =
      readInside room (tree.reread.reverse ++ found) outer rest := by
  induction h generalizing room found outer rest with
  | float value => rfl
  | string text => rfl
  | identifier name =>
    rw [tokens, Lexer.atomsOf, reread]
    by_cases hblank : isBlankText name.toList = true
    · rw [if_pos hblank, if_pos hblank]
      rfl
    · rw [if_neg hblank, if_neg hblank, String.ofList_toList]
      rfl
  | @form items hitems ih =>
    cases room with
    | zero => exact absurd hdepth (Nat.not_le.2 (depth_pos _))
    | succ room =>
      rw [depth] at hdepth
      rw [tokens, List.cons_append, readInside, List.append_assoc, readInside_tokensOfAll]
      · rw [List.append_nil, List.cons_append, readInside, List.reverse_reverse]
        rfl
      · intro item hitem found outer rest
        have := depth_le_depthOfAll hitem
        exact ih item hitem (by omega) found outer rest

/-- What is read first from the tokens of a tree is what is read of the tree. -/
theorem readOne_tokens {tree again : Value} (h : tree.IsSyntax) {limit : Nat}
    (hdepth : tree.depth ≤ limit) :
    readOne limit tree.tokens = (.ok again, []) ↔ tree.reread = [again] := by
  cases h with
  | float value => simp [tokens, readOne, reread]
  | string text => simp [tokens, readOne, reread]
  | identifier name =>
    rw [tokens, Lexer.atomsOf, reread]
    by_cases hblank : isBlankText name.toList = true
    · simp [hblank, readOne]
    · simp [hblank, readOne]
  | @form items hitems =>
    rw [depth] at hdepth
    rw [tokens, readOne, readInside_tokensOfAll]
    · simp [readInside, reread]
    · intro item hitem
      have := depth_le_depthOfAll hitem
      exact readInside_tokens (hitems item hitem) (by omega)

/-! ## Reading the same tree -/

theorem length_reread (tree : Value) : tree.reread.length ≤ 1 := by
  match tree with
  | identifier name =>
    rw [reread]
    split <;> simp
  | nil | undefined | bool _ | int _ | float _ | string _ | symbol _ | form _ | embedded ..
  | pair .. | procedure .. | native .. | callback .. => simp [reread]

theorem length_rereadAll (items : List Value) : (rereadAll items).length ≤ items.length := by
  induction items with
  | nil => exact Nat.le_refl _
  | cons item items ih =>
    have := length_reread item
    rw [rereadAll, List.length_append, List.length_cons]
    omega

/-- A row of trees is read as itself when each of them is.  One that is lost leaves the row
too short, so none stands in for another. -/
theorem rereadAll_eq_self {items : List Value} :
    rereadAll items = items ↔ ∀ item ∈ items, item.reread = [item] := by
  induction items with
  | nil => simp [rereadAll]
  | cons item items ih =>
    rw [rereadAll, List.forall_mem_cons, ← ih]
    have hone := length_reread item
    have hall := length_rereadAll items
    match hread : item.reread with
    | [] =>
      simp only [List.nil_append]
      constructor
      · intro heq
        have := congrArg List.length heq
        simp only [List.length_cons] at this
        omega
      · rintro ⟨h, -⟩
        cases h
    | [other] => simp
    | _ :: _ :: _ =>
      rw [hread] at hone
      simp at hone

/-- A tree is read as itself when all its leaves are. -/
theorem reread_eq_self {tree : Value} (h : tree.IsSyntax) :
    tree.reread = [tree] ↔ ∀ leaf ∈ tree.leaves, leaf.ReadsBack := by
  induction h with
  | float value =>
    show _ ↔ ∀ leaf ∈ [float value], leaf.ReadsBack
    rw [reread, List.forall_mem_singleton, ← readAtom_number]
    simp
  | string text => simp [reread, leaves, ReadsBack]
  | identifier name =>
    show _ ↔ ∀ leaf ∈ [identifier name], leaf.ReadsBack
    rw [reread, List.forall_mem_singleton]
    by_cases hblank : isBlankText name.toList = true
    · rw [if_pos hblank]
      constructor
      · intro h
        cases h
      · rintro ⟨hne, htrim, -⟩
        have htext : trim name.toList = name.toList := by rw [← toList_trimmed, htrim]
        rw [trim_blank hblank] at htext
        exact absurd (String.toList_eq_nil_iff.1 htext.symm) hne
    · rw [if_neg hblank, ← readAtom_name (by simpa using hblank)]
      simp
  | @form items hitems ih =>
    have hform : (form items).reread = [form items] ↔ rereadAll items = items := by simp [reread]
    rw [hform, rereadAll_eq_self, leaves]
    constructor
    · intro hread leaf hleaf
      obtain ⟨item, hitem, hleaf⟩ := mem_leavesOfAll.1 hleaf
      exact (ih item hitem).1 (hread item hitem) leaf hleaf
    · intro hleaves item hitem
      exact (ih item hitem).2 fun leaf hleaf =>
        hleaves leaf (mem_leavesOfAll.2 ⟨item, hitem, hleaf⟩)

/-- A syntax tree within the recursion limit is printed as a text.  Reading this text gives
the same tree and leaves no token unread just when every leaf is one that reads back. -/
theorem source_reads_back {tree : Value} (h : tree.IsSyntax) {limit : Nat}
    (hdepth : tree.depth ≤ limit) :
    ∃ text, tree.source limit = .ok text ∧
      (readOne limit (tokenize (String.ofList text)) = (.ok tree, []) ↔
        ∀ leaf ∈ tree.leaves, leaf.ReadsBack) := by
  obtain ⟨text, hsource, hlexes⟩ := exists_source h hdepth
  refine ⟨text, hsource, ?_⟩
  rw [Lexer.tokenize_of_lexes hlexes, readOne_tokens h hdepth, reread_eq_self h]

/-- A form with a name and a string that needs its escapes. -/
theorem source_reads_back_form :
    ∃ text, (form [identifier "f", string "(\"", float 0.5]).source 2 = .ok text ∧
      readOne 2 (tokenize (String.ofList text)) =
        (.ok (form [identifier "f", string "(\"", float 0.5]), []) := by
  have hsyntax : (form [identifier "f", string "(\"", float 0.5]).IsSyntax := by
    refine .form fun item hitem => ?_
    simp only [List.mem_cons, List.not_mem_nil, or_false] at hitem
    rcases hitem with rfl | rfl | rfl
    · exact .identifier "f"
    · exact .string "(\""
    · exact .float 0.5
  have hdepth : (form [identifier "f", string "(\"", float 0.5]).depth ≤ 2 := by decide
  obtain ⟨text, hsource, hread⟩ := source_reads_back hsyntax hdepth
  refine ⟨text, hsource, hread.2 ?_⟩
  intro leaf hleaf
  simp only [leaves, leavesOfAll, List.append_nil, List.cons_append, List.nil_append,
    List.mem_cons, List.not_mem_nil, or_false] at hleaf
  rcases hleaf with rfl | rfl | rfl
  · refine ⟨by decide, by decide, ?_⟩
    rw [← Numeral.isSome_read?]
    decide
  · trivial
  · exact ⟨by decide, by decide⟩

end TinyLisp.Value
