/-!
# Values

Programs and data are values of one type.  Source text is read into
identifiers, forms, numbers and strings; evaluation produces the others.

There are four groups.

* `Primitive` and `HostFunction`: what natives perform.  A host function is no more
  than a label here; what it does is up to the embedding program.
* `Value`: the values.  A pair, a procedure and a native each carry an identity
  that no other has, so that two of them can be told apart although they hold
  the same parts.
* `isTruthy`, `isCallable` and `kind`: what a value counts as, and `bare`: what
  an item of a form is as data.
* Lists: a chain of pairs that ends in the empty list.  `spine` takes a chain
  apart, `toList?` gives the elements of a proper list, and `chain` builds one.
  `isSome_toList?` and `toList?_chain` say that these three agree.
-/

namespace TinyLisp

/-- The place of a scope in the store. -/
abbrev ScopeId := Nat

/-- What tells apart two cells, procedures or natives with the same parts. -/
abbrev Identity := Nat

/-- The operations of the standard natives. -/
inductive Primitive where
  | absolute | maximum | minimum | squareRoot | sine | cosine | power | round | floor | ceiling
  | radians | random
  | add | subtract | multiply | divide | modulo | floorModulo | negate
  | numericEqual | less | greater | lessEqual | greaterEqual
  | same | equal | not
  | isNull | isNumber | isString | isSymbol | isProcedure | isList | isPair
  | cons | head | tail | list | length | listRef | append | range | sum
  | map | filter | reduce | reverse | last | forEach | apply
  | stringAppend | numberToString | stringToNumber
  | makeCallback | print
deriving DecidableEq, Repr

/-- A function that an embedding program offers for registration, as far as values show it. -/
structure HostFunction where
  /-- What tells it apart from the other functions. -/
  label : Nat
  /-- The name of its native when it is registered under no name. -/
  ownName : String
  /-- Whether it evaluates texts in the root of the session. -/
  evaluates : Bool
deriving DecidableEq, Repr

/-- What a native does when it is invoked. -/
inductive Operation where
  | primitive (operation : Primitive)
  | host (function : HostFunction)
  /-- Binds a name in the root of the chain that starts at `scope`. -/
  | setGlobal (scope : ScopeId)
deriving DecidableEq, Repr

/-- Source and data. -/
inductive Value where
  | nil
  | undefined
  | bool (value : Bool)
  | int (value : Int)
  | float (value : Float)
  | string (text : String)
  /-- A symbol as data, which quoting makes of an identifier. -/
  | symbol (name : String)
  /-- A name in source, which stands for what it is bound to. -/
  | identifier (name : String)
  /-- A parenthesised form in source. -/
  | form (items : List Value)
  /-- A value that an embedding program has put into a form.  It is the same as
  every other one of its identity, even where the value differs from itself. -/
  | embedded (identity : Identity) (value : Value)
  | pair (cell : Identity) (head tail : Value)
  /-- A closure: parameters and body forms with the scope they were met in. -/
  | procedure (identity : Identity) (parameters : List String) (body : List Value)
      (scope : ScopeId)
  | native (identity : Identity) (name : String) (operation : Operation)
  /-- A native without parameters that invokes its target. -/
  | callback (identity : Identity) (target : Value)
deriving Inhabited

namespace Value

/-- A test fails for false, zeros, the empty string, the empty list, an empty
form and the undefined value. -/
def isTruthy : Value → Bool
  | nil | undefined => false
  | bool value => value
  | int value => value ≠ 0
  | float value => value != 0.0
  | string text => text ≠ ""
  | form items => !items.isEmpty
  | embedded _ value => value.isTruthy
  | symbol _ | identifier _ | pair .. | procedure .. | native .. | callback .. => true

/-- Procedures and natives can be invoked. -/
def isCallable : Value → Bool
  | procedure .. | native .. | callback .. => true
  | _ => false

/-- The name of the kind of a value, as diagnostics give it. -/
def kind : Value → String
  | nil => "NilType"
  | undefined => "UndefinedType"
  | bool _ => "bool"
  | int _ => "int"
  | float _ => "float"
  | string _ => "str"
  | symbol _ => "QuotedSymbol"
  | identifier _ => "Symbol"
  | form _ => "list"
  | embedded _ value => value.kind
  | pair .. => "Pair"
  | procedure .. => "Procedure"
  | native .. | callback .. => "Native"

/-- The value itself, wherever it has been put. -/
def bare : Value → Value
  | embedded _ value => value.bare
  | value => value

/-- The name of every callback. -/
def callbackName : String := "callback"

/-! ## Lists -/

/-- The elements of a chain of pairs, in front of the reversed `before`, and
the value in which the chain ends. -/
def spineFrom (before : List Value) : Value → List Value × Value
  | pair _ head tail => spineFrom (head :: before) tail
  | ending => (before.reverse, ending)

/-- The elements of a chain of pairs and the value in which it ends. -/
def spine (value : Value) : List Value × Value :=
  spineFrom [] value

/-- A chain of pairs is a proper list when it ends in the empty list. -/
def isProperList : Value → Bool
  | pair _ _ tail => tail.isProperList
  | nil => true
  | _ => false

/-- The elements of a proper list. -/
def toList? (value : Value) : Option (List Value) :=
  match value.spine with
  | (items, nil) => some items
  | _ => none

/-- A chain of new pairs with the given elements in front of `ending`.  The
last cell takes the first identity from `first` on. -/
def chain (first : Identity) (items : List Value) (ending : Value) : Value :=
  (items.foldr (fun item (rest, cell) => (pair cell item rest, cell + 1)) (ending, first)).1

/-- What was found before stays in front. -/
theorem spineFrom_eq (before : List Value) (value : Value) :
    value.spineFrom before =
      (before.reverse ++ (value.spineFrom []).1, (value.spineFrom []).2) := by
  match value with
  | pair cell head tail =>
    simp only [spineFrom]
    rw [spineFrom_eq (head :: before) tail, spineFrom_eq [head] tail]
    simp
  | nil | undefined | bool _ | int _ | float _ | string _ | symbol _ | identifier _ | form _
  | embedded .. | procedure .. | native .. | callback .. => simp [spineFrom]

@[simp] theorem spine_pair (cell : Identity) (head tail : Value) :
    (pair cell head tail).spine = (head :: tail.spine.1, tail.spine.2) := by
  rw [spine, spineFrom, spineFrom_eq]
  rfl

@[simp] theorem toList?_nil : nil.toList? = some [] := rfl

@[simp] theorem toList?_pair (cell : Identity) (head tail : Value) :
    (pair cell head tail).toList? = tail.toList?.map (head :: ·) := by
  simp only [toList?, spine_pair]
  obtain ⟨items, ending⟩ := tail.spine
  cases ending <;> rfl

/-- The proper lists are the values that have elements. -/
theorem isSome_toList? (value : Value) : value.toList?.isSome = value.isProperList := by
  match value with
  | pair cell head tail => simp [isProperList, isSome_toList? tail]
  | nil => rfl
  | undefined | bool _ | int _ | float _ | string _ | symbol _ | identifier _ | form _
  | embedded .. | procedure .. | native .. | callback .. => rfl

theorem isProperList_iff {value : Value} :
    value.isProperList = true ↔ ∃ items, value.toList? = some items := by
  rw [← isSome_toList?, Option.isSome_iff_exists]

theorem toList?_eq_none_iff {value : Value} :
    value.toList? = none ↔ value.isProperList = false := by
  rw [← isSome_toList?, Option.isSome_eq_false_iff, Option.isNone_iff_eq_none]

@[simp] theorem chain_nil (first : Identity) (ending : Value) :
    chain first [] ending = ending := rfl

theorem chain_cons (first : Identity) (item : Value) (items : List Value) (ending : Value) :
    chain first (item :: items) ending =
      pair (first + items.length) item (chain first items ending) := by
  have h : ∀ items : List Value,
      (items.foldr (fun item (rest, cell) => (pair cell item rest, cell + 1))
        (ending, first)).2 = first + items.length := by
    intro items
    induction items with
    | nil => rfl
    | cons item items ih => simp [ih, Nat.add_assoc]
  simp [chain, h]

/-- A chain that ends in a proper list has its elements in front of those of the list. -/
theorem toList?_chain_of_toList? (first : Identity) (items : List Value) {ending : Value}
    {rest : List Value} (h : ending.toList? = some rest) :
    (chain first items ending).toList? = some (items ++ rest) := by
  induction items with
  | nil => exact h
  | cons item items ih => simp [chain_cons, ih]

/-- A chain that ends in the empty list is a proper list of its elements. -/
theorem toList?_chain (first : Identity) (items : List Value) :
    (chain first items nil).toList? = some items := by
  rw [toList?_chain_of_toList? first items toList?_nil, List.append_nil]

end Value

end TinyLisp
