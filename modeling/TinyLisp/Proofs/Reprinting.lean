import TinyLisp.Proofs.Equality
import TinyLisp.Proofs.Rereading

/-!
# Printing what has been read

The trees that the reader makes are well formed, and what is printed of them is read as
an equal tree, unless a number is beyond all doubles.

There are three groups.

* `Readable` and `WellFormed`: the leaves that reading gives, and the trees of them.
* `Overflows` and `Returns`: numbers beyond all doubles, and what is read from the text
  of a tree, with its being equal to the tree or not.
* `reads_wellFormed`: the trees of any source.
-/

namespace TinyLisp

/-! ## Well-formed trees -/

theorem Numeral.isNaN_toDouble (n : Numeral) : n.toDouble.isNaN = false := by
  unfold toDouble
  split
  · rw [Double.isNaN_neg, Double.isNaN_toDouble]
  · exact Double.isNaN_toDouble _

/-- A number is finite when it is not infinite. -/
theorem Double.isFinite_of_not_isInf {x : Float} (hnumber : x.isNaN = false)
    (hinf : ¬ x.isInf = true) : x.isFinite = true := by
  replace hnumber : x.toModel.unpack.isNaN = false := hnumber
  replace hinf : ¬ x.toModel.unpack.isInf = true := hinf
  show x.toModel.unpack.isFinite = true
  generalize x.toModel.unpack = parts at hnumber hinf ⊢
  cases parts with
  | zero | finite => rfl
  | infinity => exact absurd rfl hinf
  | notANumber => cases hnumber

namespace Value

/-- A leaf that reading gives: a number that is one, any string, or a name that is neither
empty nor a numeral and has no white space at its ends. -/
def Readable : Value → Prop
  | float value => value.isNaN = false
  | string _ => True
  | identifier name => name ≠ "" ∧ trimmed name = name ∧ ¬ IsNumeral name.toList
  | _ => False

theorem readable_readAtom {text : String} (h : isBlankText text.toList = false) :
    (readAtom text).Readable := by
  have hlegible := legible_readAtom h
  unfold readAtom at hlegible ⊢
  cases hnumber : parseNumber? text.toList with
  | some number =>
    obtain ⟨numeral, -, rfl⟩ := Option.map_eq_some_iff.1 hnumber
    exact numeral.isNaN_toDouble
  | none =>
    rw [hnumber] at hlegible
    exact hlegible _ (List.mem_singleton.2 rfl)

/-- A tree of leaves that reading gives. -/
def WellFormed (tree : Value) : Prop :=
  tree.IsSyntax ∧ ∀ leaf ∈ tree.leaves, leaf.Readable

end Value

open Value

theorem readsAs_wellFormed : ReadsAs Token.Solid WellFormed where
  string text := ⟨.string text, List.forall_mem_singleton.2 trivial⟩
  atom text h := by
    have hreadable := readable_readAtom h
    generalize readAtom text = leaf at hreadable ⊢
    cases leaf with
    | float value => exact ⟨.float value, List.forall_mem_singleton.2 hreadable⟩
    | string text => exact ⟨.string text, List.forall_mem_singleton.2 hreadable⟩
    | identifier name => exact ⟨.identifier name, List.forall_mem_singleton.2 hreadable⟩
    | nil | undefined | bool | int | symbol | form | embedded | pair | procedure | native
    | callback => exact hreadable.elim
  form items h := by
    refine ⟨.form fun item hitem => (h item hitem).1, ?_⟩
    intro leaf hleaf
    obtain ⟨item, hitem, hleaf⟩ := mem_leavesOfAll.1 hleaf
    exact (h item hitem).2 leaf hleaf

/-! ## Reading again -/

namespace Value

/-- A number of the tree is beyond all doubles. -/
def Overflows (tree : Value) : Prop :=
  ∃ x, float x ∈ tree.leaves ∧ x.isInf = true

theorem overflows_float {x : Float} : (float x).Overflows ↔ x.isInf = true := by
  simp [Overflows, leaves]

theorem not_overflows_string (text : String) : ¬ (string text).Overflows := by
  simp [Overflows, leaves]

theorem not_overflows_identifier (name : String) : ¬ (identifier name).Overflows := by
  simp [Overflows, leaves]

theorem overflows_form {items : List Value} :
    (form items).Overflows ↔ ∃ item ∈ items, item.Overflows := by
  unfold Overflows
  rw [leaves]
  constructor
  · intro h
    obtain ⟨x, hx, hinf⟩ := h
    obtain ⟨item, hitem, hx⟩ := mem_leavesOfAll.1 hx
    exact ⟨item, hitem, x, hx, hinf⟩
  · intro h
    obtain ⟨item, hitem, x, hx, hinf⟩ := h
    exact ⟨x, mem_leavesOfAll.2 ⟨item, hitem, hx⟩, hinf⟩

/-- A finite number is written as one that is read as an equal one. -/
theorem exists_readAtom_text {x : Float} (h : x.isFinite = true) :
    ∃ y, readAtom (String.ofList (Double.text x)) = float y ∧ (y == x) = true := by
  obtain ⟨y, hy⟩ := exists_restores h
  refine ⟨y, ?_, ?_⟩
  · rw [← hy.text_eq]
    exact readAtom_number.2 hy.readsBack
  · rw [Double.beq_comm]
    exact hy.equal

/-- An infinity is written as a name. -/
theorem readAtom_text_of_isInf {x : Float} (h : x.isInf = true) :
    ∃ name, readAtom (String.ofList (Double.text x)) = identifier name := by
  obtain ⟨parts, hparts, rfl⟩ := Double.exists_parts x
  replace h : parts.isInf = true := by
    rw [← Double.unpack_ofParts hparts]
    exact h
  cases hparts with
  | infinity sign => cases sign <;> exact ⟨_, readAtom_eq_identifier.2 ⟨by decide, rfl⟩⟩
  | notANumber | zero sign | finite sign hc => cases h

/-- The tree `again` is what is read from the text of a tree, and `same` tells whether the two are
equal: they are when no number is beyond all doubles. -/
structure Returns (tree again : Value) (same : Bool) : Prop where
  reread_eq : tree.reread = [again]
  same_iff : same = true ↔ ¬ tree.Overflows
  equals_eq : ∀ limit, tree.depth ≤ limit → again.equals limit tree = some same

theorem returns_leaf {tree again : Value} {same : Bool} (hreread : tree.reread = [again])
    (hsame : same = true ↔ ¬ tree.Overflows)
    (hequals : ∀ limit, again.equals (limit + 1) tree = some same) : Returns tree again same := by
  refine ⟨hreread, hsame, fun limit hdepth => ?_⟩
  cases limit with
  | zero => exact absurd hdepth (Nat.not_le.2 (depth_pos _))
  | succ limit => exact hequals limit

/-- The text of a row of trees, each of which is read again. -/
theorem returns_items {items : List Value}
    (h : ∀ item ∈ items, ∃ again same, Returns item again same) :
    ∃ agains same, rereadAll items = agains ∧ agains.length = items.length ∧
      (same = true ↔ ∀ item ∈ items, ¬ item.Overflows) ∧
      ∀ limit, depthOfAll items ≤ limit →
        equalsItems (equals limit) agains items = some same := by
  induction items with
  | nil => exact ⟨[], true, rfl, rfl, by simp, fun _ _ => rfl⟩
  | cons item items ih =>
    obtain ⟨⟨again, same, hreread, hsame, hequals⟩, hitems⟩ := List.forall_mem_cons.1 h
    obtain ⟨agains, sameAll, hrereadAll, hlength, hsameAll, hequalsAll⟩ := ih hitems
    refine ⟨again :: agains, same && sameAll, ?_, congrArg (· + 1) hlength, ?_, ?_⟩
    · rw [rereadAll, hreread, hrereadAll]
      rfl
    · rw [Bool.and_eq_true, hsame, hsameAll, List.forall_mem_cons]
    · intro limit hdepth
      obtain ⟨hitem, hrest⟩ := Nat.max_le.1 hdepth
      rw [equalsItems, hequals limit hitem]
      cases same with
      | false => rfl
      | true => exact hequalsAll limit hrest

/-- A well-formed tree is printed as a text that is read as one tree. -/
theorem exists_again {tree : Value} (h : tree.IsSyntax)
    (hleaves : ∀ leaf ∈ tree.leaves, leaf.Readable) :
    ∃ again same, Returns tree again same := by
  induction h with
  | float x =>
    have hnumber : x.isNaN = false := hleaves (float x) (List.mem_singleton.2 rfl)
    by_cases hinf : x.isInf = true
    · obtain ⟨name, hname⟩ := readAtom_text_of_isInf hinf
      refine ⟨identifier name, false, returns_leaf ?_ ?_ fun _ => rfl⟩
      · rw [reread, hname]
      · simp [overflows_float, hinf]
    · have hfinite := Double.isFinite_of_not_isInf hnumber hinf
      obtain ⟨y, hy, hequal⟩ := exists_readAtom_text hfinite
      refine ⟨float y, true, returns_leaf ?_ ?_ ?_⟩
      · rw [reread, hy]
      · simp [overflows_float, hinf]
      · intro limit
        show some (y == x) = _
        rw [hequal]
  | string text =>
    refine ⟨string text, true, returns_leaf rfl (by simp [not_overflows_string]) ?_⟩
    intro limit
    show some (text == text) = _
    rw [beq_self_eq_true]
  | identifier name =>
    have hname : (identifier name).reread = [identifier name] :=
      (reread_eq_self (.identifier name)).2
        (List.forall_mem_singleton.2 (hleaves (identifier name) (List.mem_singleton.2 rfl)))
    refine ⟨identifier name, true, returns_leaf hname (by simp [not_overflows_identifier]) ?_⟩
    intro limit
    show some (name == name) = _
    rw [beq_self_eq_true]
  | @form items hitems ih =>
    have hall : ∀ item ∈ items, ∃ again same, Returns item again same := by
      intro item hitem
      apply ih item hitem
      exact fun leaf hleaf => hleaves leaf (mem_leavesOfAll.2 ⟨item, hitem, hleaf⟩)
    obtain ⟨agains, same, hreread, hlength, hsame, hequals⟩ := returns_items hall
    refine ⟨form agains, same, ?_, ?_, ?_⟩
    · rw [reread, hreread]
    · rw [hsame, overflows_form]
      simp
    · intro limit hdepth
      cases limit with
      | zero => exact absurd hdepth (Nat.not_le.2 (depth_pos _))
      | succ limit =>
        rw [equals, alongTails_of_ends (fun _ _ _ _ _ _ h => by cases h), equalsEnds,
          if_pos hlength]
        exact hequals limit (Nat.le_of_succ_le_succ hdepth)

end Value

/-! ## Any source -/

/-- The trees that are read from a source are well formed.  What is printed of the first one is
read in turn, no token is left, and the result is equal to the tree just when none of its numbers
is beyond all doubles. -/
theorem reads_wellFormed (limit : Nat) (source : String) :
    (∀ tree ∈ (readAll limit (tokenize source)).1, tree.WellFormed) ∧
    ∀ tree rest, readOne limit (tokenize source) = (.ok tree, rest) →
      tree.WellFormed ∧ ∃ again same, (same = true ↔ ¬ tree.Overflows) ∧
        ∀ limit', tree.depth ≤ limit' → ∃ text, tree.source limit' = .ok text ∧
          readOne limit' (tokenize (String.ofList text)) = (.ok again, []) ∧
          again.equals limit' tree = some same := by
  have hsolid := solid_of_mem_tokenize source
  refine ⟨(readsAs_wellFormed.readMany hsolid).1, ?_⟩
  intro tree rest hread
  have htree : tree.WellFormed := by
    have hone := (readsAs_wellFormed.readOne limit hsolid).1
    rw [hread] at hone
    cases hone with
    | ok h => exact h
  obtain ⟨again, same, hreread, hsame, hequals⟩ := exists_again htree.1 htree.2
  refine ⟨htree, again, same, hsame, ?_⟩
  intro limit' hdepth
  obtain ⟨text, hsource, hlexes⟩ := exists_source htree.1 hdepth
  refine ⟨text, hsource, ?_, hequals limit' hdepth⟩
  rw [Lexer.tokenize_of_lexes hlexes]
  exact (readOne_tokens htree.1 hdepth).2 hreread

/-- A negative zero comes back as an equal number, and a number beyond all doubles as a name. -/
theorem reads_wellFormed_numbers :
    let zero := form [identifier "f", float (-0.0), string "a b"]
    let infinity := float (-(1.0 / 0.0))
    (readOne 1 (tokenize "(f -0 \"a b\") g") = (.ok zero, [.atom "g"]) ∧
      ∃ text again, zero.source 2 = .ok text ∧
        readOne 2 (tokenize (String.ofList text)) = (.ok again, []) ∧
        again.equals 2 zero = some true) ∧
    readOne 1 (tokenize "-1e999") = (.ok infinity, []) ∧
      ∃ text again, infinity.source 1 = .ok text ∧
        readOne 1 (tokenize (String.ofList text)) = (.ok again, []) ∧
        again.equals 1 infinity = some false := by
  intro zero infinity
  have hzero : readOne 1 (tokenize "(f -0 \"a b\") g") = (.ok zero, [.atom "g"]) := by
    have htokens : tokenize "(f -0 \"a b\") g" =
        [.opening, .atom "f", .atom "-0", .string "a b", .closing, .atom "g"] := by decide
    have hname : readAtom "f" = identifier "f" :=
      readAtom_eq_identifier.2 ⟨by decide, by decide⟩
    have hnumber : readAtom "-0" = float (-0.0) := readAtom_eq_float.2 (by decide)
    simp [htokens, readOne, readInside, hname, hnumber, zero]
  have hinfinity : readOne 1 (tokenize "-1e999") = (.ok infinity, []) := by
    have htokens : tokenize "-1e999" = [.atom "-1e999"] := by decide
    have hnumber : readAtom "-1e999" = infinity := readAtom_eq_float.2 (by decide +kernel)
    simp [htokens, readOne, hnumber]
  obtain ⟨-, again, same, hsame, hagain⟩ := (reads_wellFormed 1 _).2 _ _ hzero
  obtain ⟨-, again', same', hsame', hagain'⟩ := (reads_wellFormed 1 _).2 _ _ hinfinity
  have hfinite : ¬ zero.Overflows := by
    intro h
    obtain ⟨x, hx, hinf⟩ := h
    have hx : float x ∈ [identifier "f", float (-0.0), string "a b"] := hx
    simp only [List.mem_cons, float.injEq, reduceCtorEq, List.not_mem_nil, or_false,
      false_or] at hx
    subst hx
    revert hinf
    decide
  have hbeyond : infinity.Overflows := overflows_float.2 (by decide)
  obtain rfl := hsame.2 hfinite
  obtain rfl : same' = false := Bool.eq_false_iff.2 fun htrue => hsame'.1 htrue hbeyond
  obtain ⟨text, hsource, hread, hequals⟩ := hagain 2 (by decide)
  obtain ⟨text', hsource', hread', hequals'⟩ := hagain' 1 (by decide)
  exact ⟨⟨hzero, text, again, hsource, hread, hequals⟩,
    hinfinity, text', again', hsource', hread', hequals'⟩

end TinyLisp
