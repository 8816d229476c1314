import Mathlib
import TinyLisp.Value.Equality

/-!
# How the three equalities agree

`eq?` goes into no cell, `equal?` goes into all of them, and `=` goes into cells that
are not the same.  Where no part differs from itself, each of the first two implies the
next, and all of them are symmetric.

There are seven groups.

* Doubles: equal to each other when their parts agree, and to themselves unless they
  are not numbers.
* `Value.atoms`, `Value.cells` and `Value.headDepth`: what values are made of.
* Symmetry, at any limit.
* `Value.Alike`: values of one shape with atoms that are related.
* Atoms: what `eq?` and `=` do with them.
* `Value.equalBy`: comparing part by part, with any shortcut or none.
* `Value.equalities_agree`: the laws together.  `equal?` holds of the values that are
  alike and less deep than the limit.
-/

namespace TinyLisp

/-! ## Doubles -/

namespace Double

open Float.Model (UnpackedFloat)

/-- The parts of a double.  The two zeros, which are equal, have the same ones. -/
def parts (x : Float) : UnpackedFloat :=
  match x.toModel.unpack with
  | .zero _ => .zero .positive
  | parts => parts

theorem beq_iff {x y : Float} : (x == y) = true ↔ parts x = parts y ∧ x.isNaN = false := by
  have hsign : ∀ s s' : UnpackedFloat.Sign, compare s s' = .eq ↔ s = s' := by
    intro s s'
    constructor
    · cases s <;> cases s' <;> first | exact fun _ => rfl | exact nofun
    · rintro rfl
      cases s <;> rfl
  show (x.toModel.unpack.compare y.toModel.unpack == some .eq) = true ↔
    parts x = parts y ∧ x.toModel.unpack.isNaN = false
  unfold parts
  generalize x.toModel.unpack = p
  generalize y.toModel.unpack = q
  -- the comparison looks at the kinds first and then, within a kind, at the signs
  cases p with
  | notANumber => simp [UnpackedFloat.compare, UnpackedFloat.isNaN]
  | zero s =>
    cases q with
    | finite s' => cases s' <;> simp [UnpackedFloat.compare]
    | infinity s' => cases s' <;> simp [UnpackedFloat.compare]
    | zero | notANumber => simp [UnpackedFloat.compare, UnpackedFloat.isNaN]
  | infinity s =>
    cases q with
    | infinity s' => simp [UnpackedFloat.compare, UnpackedFloat.isNaN, hsign]
    | finite | zero | notANumber => cases s <;> simp [UnpackedFloat.compare]
  | finite s m e h =>
    cases q with
    | finite s' m' e' h' =>
      cases s <;> cases s' <;> simp [UnpackedFloat.compare, UnpackedFloat.isNaN, and_comm]
    | infinity s' => cases s' <;> simp [UnpackedFloat.compare]
    | zero | notANumber => cases s <;> simp [UnpackedFloat.compare]

theorem isNaN_eq_of_parts {x y : Float} (h : parts x = parts y) : x.isNaN = y.isNaN := by
  have hnan : ∀ z : Float, z.isNaN = (parts z).isNaN := by
    intro z
    show z.toModel.unpack.isNaN = (parts z).isNaN
    unfold parts
    cases z.toModel.unpack <;> rfl
  rw [hnan, hnan, h]

theorem beq_comm (x y : Float) : (x == y) = (y == x) := by
  have hone : ∀ x y : Float, (x == y) = true → (y == x) = true := by
    intro x y h
    obtain ⟨hparts, hnan⟩ := beq_iff.1 h
    exact beq_iff.2 ⟨hparts.symm, isNaN_eq_of_parts hparts ▸ hnan⟩
  exact Bool.eq_iff_iff.2 ⟨hone x y, hone y x⟩

theorem beq_trans {x y z : Float} (h : (x == y) = true) (h' : (y == z) = true) :
    (x == z) = true := by
  obtain ⟨hparts, hnan⟩ := beq_iff.1 h
  obtain ⟨hparts', -⟩ := beq_iff.1 h'
  exact beq_iff.2 ⟨hparts.trans hparts', hnan⟩

theorem beq_self (x : Float) : (x == x) = !x.isNaN := by
  rw [Bool.eq_iff_iff, beq_iff]
  simp

end Double

/-! ## What values are made of -/

namespace Value

/-- The values in which heads and tails end, at any depth. -/
def atoms : Value → List Value
  | pair _ head tail => head.atoms ++ tail.atoms
  | value => [value]

/-- The cells of a value, at any depth. -/
def cells : Value → List Value
  | pair cell head tail => pair cell head tail :: (head.cells ++ tail.cells)
  | _ => []

/-- How deep a walk along the tails of cells goes into the heads. -/
def headDepth : Value → Nat
  | pair _ head tail => max (head.headDepth + 1) tail.headDepth
  | _ => 0

/-- Every cell of a value holds the head and the tail that a memory has for it. -/
def Fits (memory : Identity → Value × Value) : Value → Prop
  | pair cell head tail => memory cell = (head, tail) ∧ head.Fits memory ∧ tail.Fits memory
  | _ => True

/-- A double that is not a number. -/
def isNaN : Value → Bool
  | float x => x.isNaN
  | _ => false

/-- A form, or a value that has been put into one. -/
def isSource : Value → Bool
  | form _ | embedded .. => true
  | _ => false

/-- No atom is a piece of source.  Evaluation turns source that is quoted into data. -/
def IsEvaluated (value : Value) : Prop :=
  ∀ atom ∈ value.atoms, atom.isSource = false

/-- No atom differs from itself. -/
def NaNFree (value : Value) : Prop :=
  ∀ atom ∈ value.atoms, atom.isNaN = false

instance (value : Value) : Decidable value.IsEvaluated :=
  inferInstanceAs (Decidable (∀ atom ∈ value.atoms, atom.isSource = false))

instance (value : Value) : Decidable value.NaNFree :=
  inferInstanceAs (Decidable (∀ atom ∈ value.atoms, atom.isNaN = false))

theorem forall_atoms_pair {P : Value → Prop} {cell : Identity} {head tail : Value} :
    (∀ atom ∈ (pair cell head tail).atoms, P atom) ↔
      (∀ atom ∈ head.atoms, P atom) ∧ ∀ atom ∈ tail.atoms, P atom :=
  List.forall_mem_append

/-- A value that is no pair. -/
def isAtom : Value → Bool
  | pair .. => false
  | _ => true

theorem isAtom_or_pair (a : Value) :
    a.isAtom = true ∨ ∃ cell head tail, a = pair cell head tail := by
  cases a with
  | pair cell head tail => exact .inr ⟨cell, head, tail, rfl⟩
  | nil | undefined | bool | int | float | string | symbol | identifier | form | embedded
  | procedure | native | callback => exact .inl rfl

/-- What holds of atoms, and of pairs whose parts it holds of, holds of all values. -/
@[elab_as_elim]
theorem pairInduction {motive : Value → Prop} (atom : ∀ a, a.isAtom = true → motive a)
    (pair : ∀ cell head tail, motive head → motive tail → motive (pair cell head tail))
    (a : Value) : motive a := by
  match a with
  | .pair cell head tail =>
    exact pair cell head tail (pairInduction atom pair head) (pairInduction atom pair tail)
  | .nil | .undefined | .bool _ | .int _ | .float _ | .string _ | .symbol _ | .identifier _
  | .form _ | .embedded .. | .procedure .. | .native .. | .callback .. => exact atom _ rfl

theorem atoms_of_isAtom {a : Value} (h : a.isAtom = true) : a.atoms = [a] := by
  cases a with
  | pair => cases h
  | nil | undefined | bool | int | float | string | symbol | identifier | form | embedded
  | procedure | native | callback => rfl

theorem cells_of_isAtom {a : Value} (h : a.isAtom = true) : a.cells = [] := by
  cases a with
  | pair => cases h
  | nil | undefined | bool | int | float | string | symbol | identifier | form | embedded
  | procedure | native | callback => rfl

theorem headDepth_of_isAtom {a : Value} (h : a.isAtom = true) : a.headDepth = 0 := by
  cases a with
  | pair => cases h
  | nil | undefined | bool | int | float | string | symbol | identifier | form | embedded
  | procedure | native | callback => rfl

theorem isAtom_of_mem_atoms {a atom : Value} (h : atom ∈ a.atoms) : atom.isAtom = true := by
  induction a using pairInduction with
  | atom a ha =>
    rw [atoms_of_isAtom ha] at h
    exact List.mem_singleton.1 h ▸ ha
  | pair cell head tail ih ih' =>
    rcases List.mem_append.1 h with h | h
    · exact ih h
    · exact ih' h

theorem mem_atoms_of_mem_cells {a atom cell : Value} (h : cell ∈ a.cells)
    (hatom : atom ∈ cell.atoms) : atom ∈ a.atoms := by
  induction a using pairInduction with
  | atom a ha =>
    rw [cells_of_isAtom ha] at h
    cases h
  | pair i head tail ih ih' =>
    rcases List.mem_cons.1 h with rfl | h
    · exact hatom
    · rcases List.mem_append.1 h with h | h
      · exact List.mem_append_left _ (ih h)
      · exact List.mem_append_right _ (ih' h)

/-! ## Symmetry -/

theorem alongTails_comm {stop : Identity → Identity → Bool}
    {heads ends : Value → Value → Option Bool} (hstop : ∀ i j, stop i j = stop j i)
    (hheads : ∀ a b, heads a b = heads b a) (hends : ∀ a b, ends a b = ends b a) (a b : Value) :
    alongTails stop heads ends a b = alongTails stop heads ends b a := by
  fun_induction alongTails stop heads ends a b with
  | case1 i a as j b bs h => rw [alongTails, hstop, if_pos h]
  | case2 i a as j b bs h ih => rw [alongTails, hstop, if_neg h, hheads b a, ih]
  | case3 a b hpairs =>
    have hswapped : alongTails stop heads ends b a = ends b a :=
      alongTails_of_ends fun _ _ _ _ _ _ hb ha => hpairs _ _ _ _ _ _ ha hb
    rw [hswapped, hends]

theorem equalsItems_comm {equals : Value → Value → Option Bool}
    (h : ∀ a b, equals a b = equals b a) (as bs : List Value) :
    equalsItems equals as bs = equalsItems equals bs as := by
  induction as generalizing bs with
  | nil => cases bs <;> rfl
  | cons a as ih =>
    cases bs with
    | nil => rfl
    | cons b bs => rw [equalsItems, equalsItems, h, ih]

theorem equalsAtom_comm (a b : Value) : equalsAtom a b = equalsAtom b a := by
  cases a <;> cases b <;>
    first
    | rfl
    | exact Double.beq_comm _ _
    | exact Bool.beq_comm

theorem equalsEnds_comm {equals : Value → Value → Option Bool}
    (h : ∀ a b, equals a b = equals b a) (a b : Value) :
    equalsEnds equals a b = equalsEnds equals b a := by
  fun_cases equalsEnds equals a b with
  | case1 as bs hlength => rw [equalsEnds, if_pos hlength.symm, equalsItems_comm h]
  | case2 as bs hlength => rw [equalsEnds, if_neg fun heq => hlength heq.symm]
  | case3 a j b => rw [equalsEnds, if_pos rfl]
  | case4 i a j b hne => rw [equalsEnds, if_neg fun heq => hne heq.symm, h]
  | case5 i a b hb =>
    rw [h]
    cases b <;> first | rfl | exact (hb _ _ rfl).elim
  | case6 a j b ha =>
    rw [h]
    cases a <;> first | rfl | exact (ha _ _ rfl).elim
  | case7 a b hforms _ ha hb =>
    rw [equalsAtom_comm]
    cases a <;> cases b <;>
      first
      | rfl
      | exact (ha _ _ rfl).elim
      | exact (hb _ _ rfl).elim
      | exact (hforms _ _ rfl rfl).elim

theorem equals_comm (limit : Nat) (a b : Value) : equals limit a b = equals limit b a := by
  induction limit generalizing a b with
  | zero => rfl
  | succ limit ih => exact alongTails_comm (fun _ _ => Bool.beq_comm) ih (equalsEnds_comm ih) a b

theorem same_comm (limit : Nat) (a b : Value) : same limit a b = same limit b a := by
  cases a <;> cases b <;>
    first
    | rfl
    | exact congrArg some Bool.beq_comm
    | exact congrArg some (Double.beq_comm _ _)
    | exact equals_comm limit _ _

theorem equal_comm (limit : Nat) (a b : Value) : equal limit a b = equal limit b a := by
  induction limit generalizing a b with
  | zero => rfl
  | succ limit ih => exact alongTails_comm (fun _ _ => rfl) ih (same_comm limit) a b

/-! ## Values that are alike -/

/-- Values of one shape with atoms that are related. -/
inductive Alike (R : Value → Value → Prop) : Value → Value → Prop where
  | atom {a b : Value} (ha : a.isAtom = true) (hb : b.isAtom = true) (h : R a b) : Alike R a b
  | pair (i j : Identity) {a b as bs : Value} (hhead : Alike R a b) (htail : Alike R as bs) :
      Alike R (pair i a as) (pair j b bs)

variable {R : Value → Value → Prop} {a b c : Value} {limit : Nat}

theorem Alike.trans (hR : ∀ a b c, a.isAtom = true → R a b → R b c → R a c) (h : Alike R a b)
    (h' : Alike R b c) : Alike R a c := by
  induction h generalizing c with
  | atom ha hb h =>
    cases h' with
    | atom _ hc h' => exact .atom ha hc (hR _ _ _ ha h h')
    | pair => cases hb
  | pair i j _ _ ih ih' =>
    cases h' with
    | atom hb => cases hb
    | pair _ k hhead htail => exact .pair i k (ih hhead) (ih' htail)

theorem Alike.imp {R' : Value → Value → Prop}
    (hR : ∀ x ∈ a.atoms, ∀ y ∈ b.atoms, R x y → R' x y) (h : Alike R a b) : Alike R' a b := by
  induction h with
  | atom ha hb h =>
    simp only [atoms_of_isAtom ha, atoms_of_isAtom hb, List.forall_mem_singleton] at hR
    exact .atom ha hb (hR h)
  | pair i j _ _ ih ih' =>
    apply Alike.pair
    · exact ih fun x hx y hy => hR x (List.mem_append_left _ hx) y (List.mem_append_left _ hy)
    · exact ih' fun x hx y hy => hR x (List.mem_append_right _ hx) y (List.mem_append_right _ hy)

theorem alike_self_iff : Alike R a a ↔ ∀ atom ∈ a.atoms, R atom atom := by
  induction a using pairInduction with
  | atom a ha =>
    rw [atoms_of_isAtom ha, List.forall_mem_singleton]
    constructor
    · intro h
      cases h with
      | atom _ _ h => exact h
      | pair => cases ha
    · exact .atom ha ha
  | pair cell head tail ih ih' =>
    rw [forall_atoms_pair, ← ih, ← ih']
    constructor
    · intro h
      cases h with
      | atom ha => cases ha
      | pair _ _ hhead htail => exact ⟨hhead, htail⟩
    · rintro ⟨hhead, htail⟩
      exact .pair cell cell hhead htail

/-! ## Atoms -/

/-- How `eq?` and `equal?` compare values that are no forms. -/
def sameAtom (a b : Value) : Bool :=
  (same 0 a b).getD false

/-- Atoms that `eq?` does not tell apart. -/
inductive Same : Value → Value → Prop where
  | nil : Same nil nil
  | undefined : Same undefined undefined
  | bool (value : Bool) : Same (bool value) (bool value)
  | int (value : Int) : Same (int value) (int value)
  | float {x y : Float} (h : (x == y) = true) : Same (float x) (float y)
  | string (text : String) : Same (string text) (string text)
  | symbol (name : String) : Same (symbol name) (symbol name)
  | identifier (name : String) : Same (identifier name) (identifier name)
  | procedure (i : Identity) {parameters parameters' : List String} {body body' : List Value}
      {scope scope' : ScopeId} :
      Same (procedure i parameters body scope) (procedure i parameters' body' scope')
  | native (i : Identity) {name name' : String} {operation operation' : Operation} :
      Same (native i name operation) (native i name' operation')
  | callback (i : Identity) {target target' : Value} : Same (callback i target) (callback i target')

theorem Same.trans (h : Same a b) (h' : Same b c) : Same a c := by
  cases h with
  | float h =>
    cases h' with
    | float h' => exact .float (Double.beq_trans h h')
  | procedure i =>
    cases h'
    exact .procedure i
  | native i =>
    cases h'
    exact .native i
  | callback i =>
    cases h'
    exact .callback i
  | nil | undefined | bool | int | string | symbol | identifier => exact h'

theorem sameAtom_iff (ha : a.isAtom = true) : sameAtom a b = true ↔ Same a b := by
  unfold sameAtom
  constructor
  · fun_cases same 0 a b with
    | case1 => cases ha
    | case2 i => exact fun h => eq_of_beq h ▸ .procedure i
    | case3 i => exact fun h => eq_of_beq h ▸ .native i
    | case4 i => exact fun h => eq_of_beq h ▸ .callback i
    | case5 => exact fun h => .float h
    | case6 m => exact fun h => eq_of_beq h ▸ .int m
    | case7 p => exact fun h => eq_of_beq h ▸ .bool p
    | case8 => exact fun _ => .nil
    | case9 => exact fun _ => .undefined
    | case10 s => exact fun h => eq_of_beq h ▸ .string s
    | case11 s => exact fun h => eq_of_beq h ▸ .symbol s
    | case12 s => exact fun h => eq_of_beq h ▸ .identifier s
    | case13 | case14 => exact nofun
  · intro h
    cases h with
    | float h => exact h
    | nil | undefined => rfl
    | bool | int | string | symbol | identifier | procedure | native | callback =>
      exact beq_self_eq_true _

theorem isAtom_eq_of_sameAtom (a b : Value) (h : sameAtom a b = true) :
    a.isAtom = b.isAtom := by
  cases a <;> cases b <;> first | rfl | cases h

theorem isAtom_eq_of_equalsAtom (a b : Value) (h : equalsAtom a b = true) :
    a.isAtom = b.isAtom := by
  cases a <;> cases b <;> first | rfl | cases h

theorem sameAtom_trans (a b c : Value) (ha : a.isAtom = true) (h : sameAtom a b = true)
    (h' : sameAtom b c = true) : sameAtom a c = true := by
  have hb : b.isAtom = true := isAtom_eq_of_sameAtom a b h ▸ ha
  exact (sameAtom_iff ha).2 (((sameAtom_iff ha).1 h).trans ((sameAtom_iff hb).1 h'))

theorem sameAtom_self (ha : a.isAtom = true) (hsource : a.isSource = false) :
    sameAtom a a = !a.isNaN := by
  cases a with
  | float x => exact Double.beq_self x
  | pair => cases ha
  | form | embedded => cases hsource
  | nil | undefined => rfl
  | bool | int | string | symbol | identifier | procedure | native | callback =>
    exact beq_self_eq_true _

theorem Same.equalsAtom (h : Same a b) : equalsAtom a b = true := by
  cases h with
  | float h => exact h
  | nil | undefined => rfl
  | bool | int | string | symbol | identifier | procedure | native | callback =>
    exact beq_self_eq_true _

/-- Atoms that the operator `=` does not tell apart, unless it takes them for integers. -/
theorem same_of_equalsAtom (ha : a.integer? = none) (hb : b.integer? = none) :
    Value.equalsAtom a b = true → Same a b := by
  fun_cases Value.equalsAtom a b with
  | case1 x y => exact .float
  | case2 => simp [hb]
  | case3 => simp [ha]
  | case4 => exact fun _ => .nil
  | case5 => exact fun _ => .undefined
  | case6 s => exact fun h => eq_of_beq h ▸ .string s
  | case7 s => exact fun h => eq_of_beq h ▸ .symbol s
  | case8 s => exact fun h => eq_of_beq h ▸ .identifier s
  | case9 i => exact fun h => eq_of_beq h ▸ .procedure i
  | case10 i => exact fun h => eq_of_beq h ▸ .native i
  | case11 i => exact fun h => eq_of_beq h ▸ .callback i
  | case12 => simp [ha]

/-! ## Comparing part by part -/

/-- Compares values part by part, atoms with `onAtoms`.  Two cells that `stop` accepts
are equal at once. -/
def equalBy (stop : Identity → Identity → Bool) (onAtoms : Value → Value → Bool) :
    Nat → Value → Value → Option Bool
  | 0, _, _ => none
  | limit + 1, a, b =>
    alongTails stop (equalBy stop onAtoms limit) (fun a b => some (onAtoms a b)) a b

variable {stop : Identity → Identity → Bool} {onAtoms : Value → Value → Bool}

theorem equalBy_pair (i j : Identity) (a as b bs : Value) :
    equalBy stop onAtoms (limit + 1) (pair i a as) (pair j b bs) =
      if stop i j then some true
      else (equalBy stop onAtoms limit a b).bind fun equal =>
        if equal then equalBy stop onAtoms (limit + 1) as bs else some false := rfl

theorem equalBy_of_isAtom (h : a.isAtom = true ∨ b.isAtom = true) :
    equalBy stop onAtoms (limit + 1) a b = some (onAtoms a b) := by
  cases a <;> cases b <;> first | rfl | simp [isAtom] at h

theorem exists_limit_of_pair {cell : Identity} (h : (pair cell a b).headDepth ≤ limit) :
    ∃ rest, limit = rest + 1 ∧ a.headDepth ≤ rest ∧ b.headDepth ≤ rest + 1 := by
  obtain ⟨hhead, htail⟩ := Nat.max_le.1 h
  cases limit with
  | zero => cases hhead
  | succ rest => exact ⟨rest, rfl, Nat.le_of_succ_le_succ hhead, htail⟩

/-- The comparison with a value that is less deep than the limit has an answer. -/
theorem exists_equalBy (h : a.headDepth ≤ limit) :
    ∃ answer, equalBy stop onAtoms (limit + 1) a b = some answer := by
  induction a using pairInduction generalizing b limit with
  | atom a ha => exact ⟨_, equalBy_of_isAtom (.inl ha)⟩
  | pair i a as ih ih' =>
    rcases isAtom_or_pair b with hb | ⟨j, b, bs, rfl⟩
    · exact ⟨_, equalBy_of_isAtom (.inr hb)⟩
    · obtain ⟨limit, rfl, hhead, htail⟩ := exists_limit_of_pair h
      obtain ⟨equal, hequal⟩ := ih (b := b) hhead
      obtain ⟨equal', hequal'⟩ := ih' (b := bs) htail
      rw [equalBy_pair, hequal, Option.bind_some, hequal']
      split
      · exact ⟨_, rfl⟩
      · split
        · exact ⟨_, rfl⟩
        · exact ⟨_, rfl⟩

/-- Alike values are equal, with any shortcut. -/
theorem equalBy_of_alike (h : Alike (fun a b => onAtoms a b = true) a b)
    (hlimit : a.headDepth ≤ limit) : equalBy stop onAtoms (limit + 1) a b = some true := by
  induction h generalizing limit with
  | atom ha _ h => rw [equalBy_of_isAtom (.inl ha), h]
  | pair i j _ _ ih ih' =>
    obtain ⟨limit, rfl, hhead, htail⟩ := exists_limit_of_pair hlimit
    rw [equalBy_pair, ih hhead, Option.bind_some, ih' htail]
    split <;> rfl

/-- Values that are equal without any shortcut are alike, and less deep than the limit. -/
theorem alike_of_equalBy (hatoms : ∀ a b, onAtoms a b = true → a.isAtom = b.isAtom)
    (h : equalBy (fun _ _ => false) onAtoms limit a b = some true) :
    Alike (fun a b => onAtoms a b = true) a b ∧ a.headDepth < limit := by
  induction a using pairInduction generalizing b limit with
  | atom a ha =>
    cases limit with
    | zero => cases h
    | succ limit =>
      rw [equalBy_of_isAtom (.inl ha)] at h
      have hatom := Option.some.inj h
      rw [headDepth_of_isAtom ha]
      exact ⟨.atom ha (hatoms a b hatom ▸ ha) hatom, Nat.succ_pos limit⟩
  | pair i a as ih ih' =>
    cases limit with
    | zero => cases h
    | succ limit =>
      rcases isAtom_or_pair b with hb | ⟨j, b, bs, rfl⟩
      · rw [equalBy_of_isAtom (.inr hb)] at h
        have hpair : false = b.isAtom := hatoms _ _ (Option.some.inj h)
        rw [hb] at hpair
        cases hpair
      · rw [equalBy_pair, if_neg Bool.false_ne_true] at h
        obtain ⟨equal, hhead, htail⟩ := Option.bind_eq_some_iff.1 h
        cases equal with
        | false => cases htail
        | true =>
          obtain ⟨halike, hdepth⟩ := ih hhead
          obtain ⟨halike', hdepth'⟩ := ih' htail
          exact ⟨.pair i j halike halike', Nat.max_lt.2 ⟨Nat.succ_lt_succ hdepth, hdepth'⟩⟩

/-- Shortcuts make no difference where the cells that two values share are alike to
themselves. -/
theorem equalBy_shortcuts {memory : Identity → Value × Value} (ha : a.Fits memory)
    (hb : b.Fits memory) (hlimit : a.headDepth ≤ limit)
    (hshared : ∀ cell ∈ a.cells, cell ∈ b.cells → ∀ atom ∈ cell.atoms, onAtoms atom atom = true) :
    equalBy (· == ·) onAtoms (limit + 1) a b =
      equalBy (fun _ _ => false) onAtoms (limit + 1) a b := by
  induction a using pairInduction generalizing b limit with
  | atom a hatom => rw [equalBy_of_isAtom (.inl hatom), equalBy_of_isAtom (.inl hatom)]
  | pair i a as ih ih' =>
    rcases isAtom_or_pair b with hatom | ⟨j, b, bs, rfl⟩
    · rw [equalBy_of_isAtom (.inr hatom), equalBy_of_isAtom (.inr hatom)]
    · obtain ⟨hcell, ha, has⟩ := ha
      obtain ⟨hcell', hb, hbs⟩ := hb
      by_cases hij : i = j
      · -- the memory has the same parts for both, so the shortcut skips alike values
        subst hij
        obtain ⟨rfl, rfl⟩ := Prod.mk.inj (hcell.symm.trans hcell')
        have hself : Alike (fun a b => onAtoms a b = true) (.pair i a as) (.pair i a as) :=
          alike_self_iff.2 (hshared _ List.mem_cons_self List.mem_cons_self)
        rw [equalBy_of_alike hself hlimit, equalBy_of_alike hself hlimit]
      · obtain ⟨limit, rfl, hhead, htail⟩ := exists_limit_of_pair hlimit
        have hheads := ih ha hb hhead fun cell h h' =>
          hshared cell (by simp [cells, h]) (by simp [cells, h'])
        have htails := ih' has hbs htail fun cell h h' =>
          hshared cell (by simp [cells, h]) (by simp [cells, h'])
        rw [equalBy_pair, equalBy_pair, hheads, htails, if_neg Bool.false_ne_true,
          if_neg (by simpa using hij)]

/-! ## The equalities -/

theorem isEvaluated_pair {cell : Identity} {head tail : Value}
    (h : (pair cell head tail).IsEvaluated) : head.IsEvaluated ∧ tail.IsEvaluated :=
  forall_atoms_pair.1 h

theorem isSource_of_isEvaluated (h : a.IsEvaluated) : a.isSource = false := by
  cases ha : a.isAtom with
  | true => exact h a (by simp [atoms_of_isAtom ha])
  | false =>
    rcases isAtom_or_pair a with hatom | ⟨_, _, _, rfl⟩
    · rw [hatom] at ha
      cases ha
    · rfl

/-- A walk along tails is a comparison part by part, if the heads are compared so. -/
theorem alongTails_eq_equalBy {heads ends : Value → Value → Option Bool}
    (hheads : ∀ a b, a.IsEvaluated → b.IsEvaluated → heads a b = equalBy stop onAtoms limit a b)
    (hends : ∀ a b, a.isSource = false → b.isSource = false → ends a b = some (onAtoms a b))
    (ha : a.IsEvaluated) (hb : b.IsEvaluated) :
    alongTails stop heads ends a b = equalBy stop onAtoms (limit + 1) a b := by
  fun_induction alongTails stop heads ends a b with
  | case1 i a as j b bs h => rw [equalBy_pair, if_pos h]
  | case2 i a as j b bs h ih =>
    obtain ⟨ha, has⟩ := isEvaluated_pair ha
    obtain ⟨hb, hbs⟩ := isEvaluated_pair hb
    rw [equalBy_pair, if_neg h, hheads a b ha hb, ih has hbs]
    rfl
  | case3 a b hpairs =>
    have hatom : a.isAtom = true ∨ b.isAtom = true := by
      rcases isAtom_or_pair a with hatom | ⟨_, _, _, rfl⟩
      · exact .inl hatom
      · rcases isAtom_or_pair b with hatom | ⟨_, _, _, rfl⟩
        · exact .inr hatom
        · exact (hpairs _ _ _ _ _ _ rfl rfl).elim
    rw [equalBy_of_isAtom hatom,
      hends a b (isSource_of_isEvaluated ha) (isSource_of_isEvaluated hb)]

theorem same_eq (ha : a.isSource = false) : same limit a b = some (sameAtom a b) := by
  cases a with
  | form => cases ha
  | nil | undefined | bool | int | float | string | symbol | identifier | embedded | pair
  | procedure | native | callback => cases b <;> rfl

/-- `equal?` goes into all cells. -/
theorem equal_eq (ha : a.IsEvaluated) (hb : b.IsEvaluated) :
    equal limit a b = equalBy (fun _ _ => false) sameAtom limit a b := by
  induction limit generalizing a b with
  | zero => rfl
  | succ limit ih =>
    exact alongTails_eq_equalBy (fun _ _ => ih) (fun _ _ ha _ => same_eq ha) ha hb

theorem equalsEnds_eq {equals : Value → Value → Option Bool} (ha : a.isSource = false)
    (hb : b.isSource = false) : equalsEnds equals a b = some (Value.equalsAtom a b) := by
  apply equalsEnds_of_atoms
  · rintro as bs rfl rfl
    cases ha
  · rintro identity v rfl
    cases ha
  · rintro identity v rfl
    cases hb

/-- `=` goes into cells that are not the same. -/
theorem equals_eq (ha : a.IsEvaluated) (hb : b.IsEvaluated) :
    equals limit a b = equalBy (· == ·) Value.equalsAtom limit a b := by
  induction limit generalizing a b with
  | zero => rfl
  | succ limit ih =>
    exact alongTails_eq_equalBy (fun _ _ => ih) (fun _ _ => equalsEnds_eq) ha hb

/-- Values of evaluation are alike to themselves unless they hold what is not a number. -/
theorem alike_self_iff_nanFree (ha : a.IsEvaluated) :
    Alike (fun a b => sameAtom a b = true) a a ↔ a.NaNFree := by
  rw [alike_self_iff]
  apply forall₂_congr
  intro atom hatom
  rw [sameAtom_self (isAtom_of_mem_atoms hatom) (ha atom hatom)]
  simp

theorem equalsAtom_self (ha : a.isAtom = true) (hsource : a.isSource = false)
    (hnan : a.isNaN = false) : Value.equalsAtom a a = true := by
  have hself : sameAtom a a = true := by rw [sameAtom_self ha hsource, hnan, Bool.not_false]
  exact ((sameAtom_iff ha).1 hself).equalsAtom

/-- `equal?` holds of alike values that are less deep than the limit. -/
theorem equal_iff (ha : a.IsEvaluated) (hb : b.IsEvaluated) : equal limit a b = some true ↔
    Alike (fun a b => sameAtom a b = true) a b ∧ a.headDepth < limit := by
  rw [equal_eq ha hb]
  constructor
  · exact alike_of_equalBy isAtom_eq_of_sameAtom
  · rintro ⟨halike, hlimit⟩
    obtain ⟨rest, rfl⟩ := Nat.exists_eq_add_of_lt hlimit
    exact equalBy_of_alike halike (Nat.le_add_right _ _)

/-- A cell is the same as no other, so what `eq?` does not tell apart is alike. -/
theorem alike_of_sameAtom {memory : Identity → Value × Value} (ha : a.IsEvaluated)
    (hfits : a.Fits memory) (hfits' : b.Fits memory) (hnan : a.NaNFree)
    (h : sameAtom a b = true) : Alike (fun a b => sameAtom a b = true) a b := by
  have hatoms := isAtom_eq_of_sameAtom a b h
  rcases isAtom_or_pair a with hatom | ⟨i, head, tail, rfl⟩
  · exact .atom hatom (hatoms ▸ hatom) h
  · rcases isAtom_or_pair b with hatom | ⟨j, head', tail', rfl⟩
    · rw [hatom] at hatoms
      cases hatoms
    · obtain rfl : i = j := eq_of_beq h
      obtain ⟨rfl, rfl⟩ := Prod.mk.inj (hfits.1.symm.trans hfits'.1)
      exact (alike_self_iff_nanFree ha).2 hnan

/-- What the three equalities have to do with each other.  The limit matters only where a
value is deeper, for then a comparison that goes into its heads has no answer. -/
structure EqualityLaws (limit : Nat) (a b c : Value) : Prop where
  equal_symm : equal limit a b = equal limit b a
  equal_trans : equal limit a b = some true → equal limit b c = some true →
    equal limit a c = some true
  equal_self : a.headDepth < limit → equal limit a a = some (decide a.NaNFree)
  equal_of_same : a.headDepth < limit → a.NaNFree → same limit a b = some true →
    equal limit a b = some true
  equals_of_equal : equal limit a b = some true → equals limit a b = some true
  equal_of_equals : a.headDepth < limit → a.NaNFree →
    (∀ atom ∈ a.atoms ++ b.atoms, atom.integer? = none) → equals limit a b = some true →
    equal limit a b = some true
  equals_symm : equals limit a b = equals limit b a
  /-- A shortcut can matter only in a cell of both values that differs from itself. -/
  shortcuts : a.headDepth < limit → (∀ cell ∈ a.cells, cell ∈ b.cells → cell.NaNFree) →
    equals limit a b = equalBy (fun _ _ => false) Value.equalsAtom limit a b
  /-- No comparison is broken off. -/
  answers : a.headDepth < limit → (same limit a b).isSome = true ∧
    (equal limit a b).isSome = true ∧ (equals limit a b).isSome = true

/-- The three equalities agree. -/
theorem equalities_agree {memory : Identity → Value × Value} (limit : Nat) (ha : a.IsEvaluated)
    (hb : b.IsEvaluated) (hc : c.IsEvaluated) (hfits : a.Fits memory) (hfits' : b.Fits memory) :
    EqualityLaws limit a b c := by
  have hanswer : ∀ {b : Value} {stop onAtoms}, a.headDepth < limit →
      (equalBy stop onAtoms limit a b).isSome = true := by
    intro b stop onAtoms hlimit
    obtain ⟨rest, rfl⟩ := Nat.exists_eq_add_of_lt hlimit
    obtain ⟨answer, h⟩ := exists_equalBy (Nat.le_add_right a.headDepth rest)
    rw [h, Option.isSome_some]
  have hshortcuts : a.headDepth < limit → (∀ cell ∈ a.cells, cell ∈ b.cells → cell.NaNFree) →
      equals limit a b = equalBy (fun _ _ => false) Value.equalsAtom limit a b := by
    intro hlimit hshared
    obtain ⟨rest, rfl⟩ := Nat.exists_eq_add_of_lt hlimit
    rw [equals_eq ha hb]
    apply equalBy_shortcuts hfits hfits' (Nat.le_add_right _ _)
    intro cell hcell hcell' atom hatom
    exact equalsAtom_self (isAtom_of_mem_atoms hatom)
      (ha atom (mem_atoms_of_mem_cells hcell hatom)) (hshared cell hcell hcell' atom hatom)
  refine ⟨equal_comm limit a b, ?_, ?_, ?_, ?_, ?_, equals_comm limit a b, hshortcuts, ?_⟩
  · intro h h'
    obtain ⟨halike, hlimit⟩ := (equal_iff ha hb).1 h
    obtain ⟨halike', -⟩ := (equal_iff hb hc).1 h'
    exact (equal_iff ha hc).2 ⟨halike.trans sameAtom_trans halike', hlimit⟩
  · intro hlimit
    by_cases hnan : a.NaNFree
    · rw [decide_eq_true hnan]
      exact (equal_iff ha ha).2 ⟨(alike_self_iff_nanFree ha).2 hnan, hlimit⟩
    · rw [decide_eq_false hnan]
      obtain ⟨answer, h⟩ := Option.isSome_iff_exists.1 (hanswer hlimit)
      rw [← equal_eq ha ha] at h
      cases answer with
      | false => exact h
      | true => exact absurd ((alike_self_iff_nanFree ha).1 ((equal_iff ha ha).1 h).1) hnan
  · intro hlimit hnan h
    rw [same_eq (isSource_of_isEvaluated ha)] at h
    exact (equal_iff ha hb).2 ⟨alike_of_sameAtom ha hfits hfits' hnan (Option.some.inj h), hlimit⟩
  · intro h
    obtain ⟨halike, hlimit⟩ := (equal_iff ha hb).1 h
    obtain ⟨rest, rfl⟩ := Nat.exists_eq_add_of_lt hlimit
    rw [equals_eq ha hb]
    apply equalBy_of_alike _ (Nat.le_add_right _ _)
    exact halike.imp fun x hx y _ h => ((sameAtom_iff (isAtom_of_mem_atoms hx)).1 h).equalsAtom
  · intro hlimit hnan hinteger h
    rw [hshortcuts hlimit fun cell hcell _ atom hatom =>
      hnan atom (mem_atoms_of_mem_cells hcell hatom)] at h
    obtain ⟨halike, -⟩ := alike_of_equalBy isAtom_eq_of_equalsAtom h
    refine (equal_iff ha hb).2 ⟨halike.imp fun x hx y hy h => ?_, hlimit⟩
    exact (sameAtom_iff (isAtom_of_mem_atoms hx)).2 (same_of_equalsAtom
      (hinteger x (List.mem_append_left _ hx)) (hinteger y (List.mem_append_right _ hy)) h)
  · intro hlimit
    rw [same_eq (isSource_of_isEvaluated ha), equal_eq ha hb, equals_eq ha hb]
    exact ⟨rfl, hanswer hlimit, hanswer hlimit⟩

/-- Two lists that have a cell in common. -/
theorem equalities_agree_shared :
    let shared := pair 0 (float 1) nil
    let a := pair 1 shared shared
    let b := pair 2 shared (pair 3 (float 1) nil)
    let memory : Identity → Value × Value
      | 0 => (float 1, nil)
      | 1 => (shared, shared)
      | 2 => (shared, pair 3 (float 1) nil)
      | _ => (float 1, nil)
    (a.IsEvaluated ∧ b.IsEvaluated ∧ a.Fits memory ∧ b.Fits memory) ∧ EqualityLaws 2 a b a := by
  intro shared a b memory
  have ha : a.IsEvaluated := by decide
  have hb : b.IsEvaluated := by decide
  have hshared : shared.Fits memory := ⟨rfl, trivial, trivial⟩
  have hfits : a.Fits memory := ⟨rfl, hshared, hshared⟩
  have hfits' : b.Fits memory := ⟨rfl, hshared, rfl, trivial, trivial⟩
  exact ⟨⟨ha, hb, hfits, hfits'⟩, equalities_agree 2 ha hb ha hfits hfits'⟩

end Value

end TinyLisp
