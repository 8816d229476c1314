import TinyLisp.Value

/-!
# Syntax trees

Source text is read into forms over numbers, strings and names.

There are three groups.

* `IsSyntax`: the values that are such trees.
* `depth`: how deep the forms of a tree are nested.
* `leaves`: the numbers, strings and names of a tree, from left to right.
-/

namespace TinyLisp.Value

/-- Forms over numbers, strings and names. -/
inductive IsSyntax : Value → Prop where
  | float (value : Float) : IsSyntax (float value)
  | string (text : String) : IsSyntax (string text)
  | identifier (name : String) : IsSyntax (identifier name)
  | form {items : List Value} (hitems : ∀ item ∈ items, IsSyntax item) : IsSyntax (form items)

mutual

/-- How many forms stand around the innermost value of a tree, counting this value. -/
def depth : Value → Nat
  | form items => depthOfAll items + 1
  | _ => 1

/-- The largest depth of several trees. -/
def depthOfAll : List Value → Nat
  | [] => 0
  | item :: items => max (depth item) (depthOfAll items)

end

theorem depth_pos (tree : Value) : 0 < tree.depth := by
  cases tree <;> simp [depth]

theorem depth_le_depthOfAll {item : Value} {items : List Value} (h : item ∈ items) :
    item.depth ≤ depthOfAll items := by
  induction items with
  | nil => cases h
  | cons first items ih =>
    rw [depthOfAll]
    rcases List.mem_cons.1 h with rfl | h
    · omega
    · have := ih h
      omega

mutual

/-- The parts of a tree that are not forms, from left to right. -/
def leaves : Value → List Value
  | form items => leavesOfAll items
  | value => [value]

/-- The leaves of several trees. -/
def leavesOfAll : List Value → List Value
  | [] => []
  | item :: items => leaves item ++ leavesOfAll items

end

theorem mem_leavesOfAll {leaf : Value} {items : List Value} :
    leaf ∈ leavesOfAll items ↔ ∃ item ∈ items, leaf ∈ item.leaves := by
  induction items with
  | nil => simp [leavesOfAll]
  | cons item items ih => simp [leavesOfAll, ih]

end TinyLisp.Value
