import TinyLisp.Number.Double
import TinyLisp.Value

/-!
# Three equalities

There are four groups.

* `sameNumber`: equality of numbers by value, whatever their kind.
* `Value.equals`, the operator `=`: numbers by value, the truth values counting
  as one and zero; pairs part by part, a cell being equal to itself.
* `Value.same`, the operator `eq?`: cells, procedures and natives by identity,
  everything else by kind and value.
* `Value.equal`, the operator `equal?`: pairs part by part, everything else by
  `same`.

Two pairs are compared by walking along both tails at once and descending into
the heads.  The descent has a limit and no result beyond it.
-/

namespace TinyLisp

/-- An integer and a double stand for the same number. -/
def sameNumber (n : Int) (x : Float) : Bool :=
  match Double.fraction? x with
  | some fraction => fraction.compareInt n == .eq
  | none => false

namespace Value

/-- The integer that a value counts as; the truth values count as one and zero. -/
def integer? : Value → Option Int
  | int value => some value
  | bool value => some (if value then 1 else 0)
  | _ => none

/-- Equality of values that are neither pairs nor forms, by value. -/
def equalsAtom (a b : Value) : Bool :=
  match a, b with
  | float x, float y => x == y
  | float x, b => b.integer?.any (sameNumber · x)
  | a, float y => a.integer?.any (sameNumber · y)
  | nil, nil | undefined, undefined => true
  | string s, string t => s == t
  | symbol s, symbol t => s == t
  | identifier s, identifier t => s == t
  | procedure i .., procedure j .. => i == j
  | native i .., native j .. => i == j
  | callback i _, callback j _ => i == j
  | a, b => a.integer?.isSome && a.integer? == b.integer?

/-- Compares two lists of forms item by item; they must have the same length. -/
def equalsItems (equals : Value → Value → Option Bool) : List Value → List Value → Option Bool
  | [], [] => some true
  | a :: as, b :: bs => do
    if ← equals a b then equalsItems equals as bs else some false
  | _, _ => some false

/-- Walks along the tails of two values: the heads are compared by `heads`, the
values in which the walk ends by `ends`, and two cells that `stop` accepts are
equal at once. -/
def alongTails (stop : Identity → Identity → Bool) (heads ends : Value → Value → Option Bool) :
    Value → Value → Option Bool
  | pair i a as, pair j b bs =>
    if stop i j then some true
    else do
      if ← heads a b then alongTails stop heads ends as bs else some false
  | a, b => ends a b

/-- The walk is over where one of the values is no pair. -/
theorem alongTails_of_ends {stop : Identity → Identity → Bool}
    {heads ends : Value → Value → Option Bool} {a b : Value}
    (h : ∀ i head tail j head' tail', a = pair i head tail → b = pair j head' tail' → False) :
    alongTails stop heads ends a b = ends a b := by
  fun_cases alongTails stop heads ends a b with
  | case1 | case2 => exact (h _ _ _ _ _ _ rfl rfl).elim
  | case3 => rfl

/-- Equality of values that are not two pairs.  Embedded values of one identity
are equal at once. -/
def equalsEnds (equals : Value → Value → Option Bool) : Value → Value → Option Bool
  | form as, form bs =>
    if as.length = bs.length then equalsItems equals as bs else some false
  | embedded i a, embedded j b => if i = j then some true else equals a b
  | embedded _ a, b => equals a b
  | a, embedded _ b => equals a b
  | a, b => some (equalsAtom a b)

/-- Values that are not embedded, and of which not both are forms, have no parts that
are compared. -/
theorem equalsEnds_of_atoms {equals : Value → Value → Option Bool} {a b : Value}
    (hforms : ∀ as bs, a = form as → b = form bs → False)
    (ha : ∀ identity v, a = embedded identity v → False)
    (hb : ∀ identity v, b = embedded identity v → False) :
    equalsEnds equals a b = some (equalsAtom a b) := by
  fun_cases equalsEnds equals a b with
  | case1 as bs | case2 as bs => exact (hforms as bs rfl rfl).elim
  | case3 | case4 | case5 => exact (ha _ _ rfl).elim
  | case6 => exact (hb _ _ rfl).elim
  | case7 => rfl

/-- The operator `=` on two values. -/
def equals : Nat → Value → Value → Option Bool
  | 0, _, _ => none
  | limit + 1, a, b => alongTails (· == ·) (equals limit) (equalsEnds (equals limit)) a b

/-- The operator `eq?` on two values. -/
def same (limit : Nat) : Value → Value → Option Bool
  | pair i .., pair j .. => some (i == j)
  | procedure i .., procedure j .. => some (i == j)
  | native i .., native j .. => some (i == j)
  | callback i _, callback j _ => some (i == j)
  | float x, float y => some (x == y)
  | int m, int n => some (m == n)
  | bool p, bool q => some (p == q)
  | nil, nil | undefined, undefined => some true
  | string s, string t => some (s == t)
  | symbol s, symbol t => some (s == t)
  | identifier s, identifier t => some (s == t)
  | form as, form bs => equals limit (form as) (form bs)
  | _, _ => some false

/-- The operator `equal?` on two values. -/
def equal : Nat → Value → Value → Option Bool
  | 0, _, _ => none
  | limit + 1, a, b => alongTails (fun _ _ => false) (equal limit) (same limit) a b

end Value

end TinyLisp
