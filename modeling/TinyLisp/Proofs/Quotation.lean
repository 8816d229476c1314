import TinyLisp.Evaluator
import TinyLisp.Proofs.Notation
import TinyLisp.Proofs.Syntax
import TinyLisp.Proofs.Writing
import TinyLisp.Value.Equality

/-!
# Syntax and the data it stands for

Quoting turns a syntax tree into data: names become symbols, and forms become
proper lists.  The relation between the two decides how the data are written and
what they are equal to, whichever cells the lists are made of.

There are four groups.

* `Quotes`: trees and the data that they stand for.
* `Quotes.write_eq_source`: the data are written as the source of the tree.
* `Quotes.equal_eq`: data that stand for one tree are equal.
* `exists_quoted`: quoting gives such data.
-/

namespace TinyLisp

open Value

/-! ## Trees and the data that they stand for -/

/-- A syntax tree and the data that it stands for: names for symbols, and forms for proper lists.
The numbers of both are in the relation `R`. -/
inductive Quotes (R : Float → Float → Prop) : Value → Value → Prop where
  | float {x y : Float} (h : R x y) : Quotes R (float x) (float y)
  | string (text : String) : Quotes R (string text) (string text)
  | symbol (name : String) : Quotes R (identifier name) (symbol name)
  | nil : Quotes R (form []) nil
  | cons {item head tail : Value} {items : List Value} (cell : Identity)
      (hitem : Quotes R item head) (hitems : Quotes R (form items) tail) :
      Quotes R (form (item :: items)) (pair cell head tail)

namespace Quotes

variable {R : Float → Float → Prop} {tree data : Value}

/-- The items of a form stand for the elements of a proper list, one by one. -/
theorem exists_toList {items : List Value} (h : Quotes R (form items) data) :
    ∃ elements, data.toList? = some elements ∧ List.Forall₂ (Quotes R) items elements := by
  induction items generalizing data with
  | nil =>
    cases h
    exact ⟨[], rfl, .nil⟩
  | cons item items ih =>
    cases h with
    | @cons _ head tail _ cell hitem hitems =>
      obtain ⟨elements, htail, hrest⟩ := ih hitems
      exact ⟨head :: elements, by rw [toList?_pair, htail]; rfl, .cons hitem hrest⟩

theorem isProperList {items : List Value} (h : Quotes R (form items) data) :
    data.isProperList = true := by
  obtain ⟨elements, helements, -⟩ := h.exists_toList
  exact isProperList_iff.2 ⟨elements, helements⟩

/-- Only forms stand for lists. -/
theorem exists_form (h : Quotes R tree data) (hproper : data.isProperList = true) :
    ∃ items, tree = form items := by
  cases h with
  | nil => exact ⟨[], rfl⟩
  | cons => exact ⟨_, rfl⟩
  | float | string | symbol => cases hproper

/-- Both go equally deep. -/
theorem height (h : Quotes R tree data) : data.height = tree.depth := by
  induction h with
  | float | string | symbol | nil => rfl
  | @cons item head tail items cell hitem hitems ih ihs =>
    rw [Value.height, if_pos hitems.isProperList, ih, ihs]
    simp only [depth, depthOfAll]
    omega

/-! ## Printing -/

theorem mapM_eq {items elements : List Value} (h : List.Forall₂ (Quotes R) items elements)
    {f f' : Value → Attempt (List Char)}
    (hf : ∀ item element, Quotes R item element → f' element = f item) :
    elements.mapM f' = items.mapM f := by
  induction h with
  | nil => rfl
  | cons hitem hrest ih => rw [List.mapM_cons, List.mapM_cons, hf _ _ hitem, ih]

/-- The data are written as the source of the tree, if the numbers of both have the same texts. -/
theorem write_eq_source (hR : ∀ x y, R x y → Double.text x = Double.text y) (h : Quotes R tree data)
    (limit : Nat) : data.write limit = tree.source limit := by
  induction limit generalizing tree data with
  | zero => rfl
  | succ limit ih =>
    cases h with
    | @float x y h => exact congrArg Except.ok (hR x y h).symm
    | string | symbol | nil => rfl
    | @cons item head tail items cell hitem hitems =>
      obtain ⟨elements, helements, hrow⟩ := (Quotes.cons cell hitem hitems).exists_toList
      rw [write, source]
      simp only [helements, mapM_eq hrow fun item element h => ih h]

/-! ## Equality -/

variable {S : Float → Float → Prop} {other : Value} {limit : Nat}

/-- Two proper lists of equal elements, in a walk along the tails of both. -/
theorem alongTails_eq {items : List Value} (h : Quotes R (form items) data)
    (ho : Quotes S (form items) other)
    (hitems : ∀ item ∈ items, ∀ a b, Quotes R item a → Quotes S item b →
      equal limit a b = some true) :
    alongTails (fun _ _ => false) (equal limit) (same limit) data other = some true := by
  induction items generalizing data other with
  | nil =>
    cases h
    cases ho
    rfl
  | cons item items ih =>
    obtain ⟨hitem, hrest⟩ := List.forall_mem_cons.1 hitems
    cases h with
    | cons cell hfirst htail =>
      cases ho with
      | cons cell' hfirst' htail' =>
        have hheads := hitem _ _ hfirst hfirst'
        simp only [alongTails, Bool.false_eq_true, if_false, hheads]
        exact ih htail htail' hrest

/-- Data that stand for one tree are equal, if their numbers are. -/
theorem equal_eq (hnumbers : ∀ x y z, R x y → S x z → (y == z) = true) (h : Quotes R tree data)
    (ho : Quotes S tree other) (hlimit : tree.depth ≤ limit) :
    equal limit data other = some true := by
  induction limit generalizing tree data other with
  | zero => exact absurd (depth_pos tree) (Nat.not_lt.2 hlimit)
  | succ limit ih =>
    cases tree with
    | float x =>
      cases h with
      | float hx =>
        cases ho with
        | float hx' => exact congrArg some (hnumbers x _ _ hx hx')
    | string text =>
      cases h
      cases ho
      exact congrArg some (beq_self_eq_true text)
    | identifier name =>
      cases h
      cases ho
      exact congrArg some (beq_self_eq_true name)
    | form items =>
      apply alongTails_eq h ho
      intro item hitem a b ha hb
      have hdepth := depth_le_depthOfAll hitem
      rw [depth] at hlimit
      exact ih ha hb (by omega)
    | nil | undefined | bool | int | symbol | embedded | pair | procedure | native | callback =>
      cases h

end Quotes

/-! ## Quoting -/

theorem quotes_chain {R : Float → Float → Prop} {items elements : List Value}
    (h : List.Forall₂ (Quotes R) items elements) (first : Identity) :
    Quotes R (form items) (chain first elements nil) := by
  induction h with
  | nil => exact .nil
  | cons hitem hrest ih =>
    rw [chain_cons]
    exact .cons _ hitem ih

/-- A row of runs, each of which gives a result of its own kind. -/
theorem exists_mapM_ok {f : Value → Run Value} {P : Value → Value → Prop} {items : List Value}
    (h : ∀ item ∈ items, ∀ s, ∃ v t, f item s = .ok v t ∧ P item v) (s : Store) :
    ∃ results t, items.mapM f s = .ok results t ∧ List.Forall₂ P items results := by
  induction items generalizing s with
  | nil => exact ⟨[], s, rfl, .nil⟩
  | cons item items ih =>
    obtain ⟨hitem, hrest⟩ := List.forall_mem_cons.1 h
    obtain ⟨v, t, hv, hP⟩ := hitem s
    obtain ⟨results, u, hresults, hPs⟩ := ih hrest t
    refine ⟨v :: results, u, ?_, .cons hP hPs⟩
    rw [List.mapM_cons, Run.bind_of_ok hv, Run.bind_of_ok hresults]
    rfl

/-- Quoting a tree gives the data that it stands for, with the same numbers. -/
theorem exists_quoted {tree : Value} (h : tree.IsSyntax) {limit : Nat} (hlimit : tree.depth ≤ limit)
    (s : Store) :
    ∃ v t, SpecialForm.quoted limit tree s = .ok v t ∧ Quotes Eq tree v := by
  induction h generalizing limit s with
  | float x =>
    obtain ⟨limit, rfl⟩ := Nat.exists_eq_add_of_le' hlimit
    exact ⟨float x, s, rfl, .float rfl⟩
  | string text =>
    obtain ⟨limit, rfl⟩ := Nat.exists_eq_add_of_le' hlimit
    exact ⟨string text, s, rfl, .string text⟩
  | identifier name =>
    obtain ⟨limit, rfl⟩ := Nat.exists_eq_add_of_le' hlimit
    exact ⟨symbol name, s, rfl, .symbol name⟩
  | @form items hitems ih =>
    rw [depth] at hlimit
    obtain ⟨limit, rfl⟩ := Nat.exists_eq_add_of_le' (Nat.le_trans (Nat.le_add_left 1 _) hlimit)
    have hparts : ∀ item ∈ items, ∀ s, ∃ v t, SpecialForm.quoted limit item s = .ok v t ∧
        Quotes Eq item v := by
      intro item hitem s
      have hdepth := depth_le_depthOfAll hitem
      exact ih item hitem (by omega) s
    obtain ⟨elements, t, hrun, helements⟩ := exists_mapM_ok hparts s
    refine ⟨chain t.nextIdentity elements nil, (t.reserve elements.length).2, ?_,
      quotes_chain helements t.nextIdentity⟩
    rw [SpecialForm.quoted, Run.bind_of_ok hrun]
    rfl

end TinyLisp
