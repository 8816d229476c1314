import TinyLisp.Evaluator
import TinyLisp.Proofs.Evaluation.Coupling
import TinyLisp.Proofs.Syntax

/-!
# Other identities

What tells apart two cells, procedures or natives are their identities, and
nothing else depends on them.

There are five groups.

* `Value.rename`: a value with other identities.
* What a value counts as does not depend on identities.
* Lists: a renamed chain is the chain of the renamed elements.
* `Value.identities`: the identities in a value.  `rename_eq_self_iff` says that
  a value is the same when they are.
* Scopes and errors with other identities.
-/

namespace TinyLisp.Value

mutual

/-- The value with other identities. -/
def rename (new : Identity → Identity) : Value → Value
  | form items => form (renameAll new items)
  | embedded identity value => embedded (new identity) (rename new value)
  | pair cell head tail => pair (new cell) (rename new head) (rename new tail)
  | procedure identity parameters body scope =>
    procedure (new identity) parameters (renameAll new body) scope
  | native identity name operation => native (new identity) name operation
  | callback identity target => callback (new identity) (rename new target)
  | nil => nil
  | undefined => undefined
  | bool value => bool value
  | int value => int value
  | float value => float value
  | string text => string text
  | symbol name => symbol name
  | identifier name => identifier name

/-- Several values with other identities. -/
def renameAll (new : Identity → Identity) : List Value → List Value
  | [] => []
  | item :: items => rename new item :: renameAll new items

end

variable {new : Identity → Identity}

@[simp] theorem renameAll_eq_map (items : List Value) :
    renameAll new items = items.map (rename new) := by
  induction items with
  | nil => rfl
  | cons item items ih => rw [renameAll, ih, List.map_cons]

attribute [simp] rename

theorem rename_of_isPlain {v : Value} (h : v.isPlain = true) : v.rename new = v := by
  cases v <;> first | rfl | cases h

/-- Syntax has no identities. -/
theorem rename_of_isSyntax {tree : Value} (h : tree.IsSyntax) : tree.rename new = tree := by
  induction h with
  | float value => rfl
  | string text => rfl
  | identifier name => rfl
  | form hitems ih => rw [rename, renameAll_eq_map, List.map_congr_left ih, List.map_id']

/-! ## What a value counts as -/

@[simp] theorem isTruthy_rename : ∀ v : Value, (v.rename new).isTruthy = v.isTruthy
  | embedded _ value => isTruthy_rename value
  | form items => by cases items <;> rfl
  | nil | undefined | bool _ | int _ | float _ | string _ | symbol _ | identifier _ | pair ..
  | procedure .. | native .. | callback .. => rfl

@[simp] theorem isCallable_rename (v : Value) : (v.rename new).isCallable = v.isCallable := by
  cases v <;> rfl

@[simp] theorem kind_rename : ∀ v : Value, (v.rename new).kind = v.kind
  | embedded _ value => kind_rename value
  | nil | undefined | bool _ | int _ | float _ | string _ | symbol _ | identifier _ | form _
  | pair .. | procedure .. | native .. | callback .. => rfl

@[simp] theorem bare_rename : ∀ v : Value, (v.rename new).bare = v.bare.rename new
  | embedded _ value => bare_rename value
  | nil | undefined | bool _ | int _ | float _ | string _ | symbol _ | identifier _ | form _
  | pair .. | procedure .. | native .. | callback .. => rfl

@[simp] theorem ofReal?_rename (v : Value) :
    Number.ofReal? (v.rename new) = Number.ofReal? v := by
  cases v <;> rfl

@[simp] theorem ofValue?_rename (v : Value) :
    Number.ofValue? (v.rename new) = Number.ofValue? v := by
  cases v <;> rfl

/-! ## Lists -/

@[simp] theorem spine_rename : ∀ v : Value,
    (v.rename new).spine = (v.spine.1.map (rename new), v.spine.2.rename new)
  | pair cell head tail => by
    rw [rename, spine_pair, spine_pair, spine_rename tail]
    rfl
  | nil | undefined | bool _ | int _ | float _ | string _ | symbol _ | identifier _ | form _
  | embedded .. | procedure .. | native .. | callback .. => rfl

@[simp] theorem isProperList_rename : ∀ v : Value,
    (v.rename new).isProperList = v.isProperList
  | pair _ _ tail => isProperList_rename tail
  | nil | undefined | bool _ | int _ | float _ | string _ | symbol _ | identifier _ | form _
  | embedded .. | procedure .. | native .. | callback .. => rfl

@[simp] theorem toList?_rename (v : Value) :
    (v.rename new).toList? = v.toList?.map (List.map (rename new)) := by
  unfold toList?
  rw [spine_rename]
  obtain ⟨items, ending⟩ := v.spine
  cases ending <;> rfl

/-- A chain of new cells, when the cells have new identities in the same order. -/
theorem rename_chain {first first' : Identity} {items : List Value} (ending : Value)
    (h : ∀ i < items.length, new (first + i) = first' + i) :
    (chain first items ending).rename new =
      chain first' (items.map (rename new)) (ending.rename new) := by
  induction items with
  | nil => rfl
  | cons item items ih =>
    have hlast : new (first + items.length) = first' + items.length := h _ (by simp)
    have hrest := ih fun i hi => h i (Nat.lt_succ_of_lt hi)
    rw [List.map_cons, chain_cons, chain_cons, rename, hrest, hlast, List.length_map]

/-! ## The identities in a value -/

mutual

/-- The identities in a value. -/
def identities : Value → List Identity
  | form items => identitiesOfAll items
  | embedded identity value => identity :: identities value
  | pair cell head tail => cell :: (identities head ++ identities tail)
  | procedure identity _ body _ => identity :: identitiesOfAll body
  | native identity _ _ => [identity]
  | callback identity target => identity :: identities target
  | nil | undefined | bool _ | int _ | float _ | string _ | symbol _ | identifier _ => []

/-- The identities in several values. -/
def identitiesOfAll : List Value → List Identity
  | [] => []
  | item :: items => identities item ++ identitiesOfAll items

end

mutual

/-- A value is the same with other identities when they are those that it has. -/
theorem rename_eq_self_iff : ∀ v : Value, v.rename new = v ↔ ∀ i ∈ v.identities, new i = i
  | form items => by
    rw [rename, identities, form.injEq]
    exact renameAll_eq_self_iff items
  | embedded identity value => by
    rw [rename, identities, embedded.injEq, List.forall_mem_cons, rename_eq_self_iff value]
  | pair cell head tail => by
    rw [rename, identities, pair.injEq, List.forall_mem_cons, List.forall_mem_append,
      rename_eq_self_iff head, rename_eq_self_iff tail]
  | procedure identity parameters body scope => by
    rw [rename, identities, procedure.injEq, List.forall_mem_cons, renameAll_eq_self_iff body]
    simp
  | native identity name operation => by simp [identities]
  | callback identity target => by
    rw [rename, identities, callback.injEq, List.forall_mem_cons, rename_eq_self_iff target]
  | nil | undefined | bool _ | int _ | float _ | string _ | symbol _ | identifier _ => by
    simp [identities]

theorem renameAll_eq_self_iff : ∀ items : List Value,
    renameAll new items = items ↔ ∀ i ∈ identitiesOfAll items, new i = i
  | [] => by simp [identitiesOfAll]
  | item :: items => by
    rw [renameAll, identitiesOfAll, List.cons.injEq, List.forall_mem_append,
      rename_eq_self_iff item, renameAll_eq_self_iff items]

end

@[simp] theorem rename_id (v : Value) : v.rename id = v :=
  (rename_eq_self_iff v).2 fun _ _ => rfl

@[simp] theorem rename_id_eq : rename id = id :=
  funext rename_id

/-- Syntax has no identities. -/
theorem identities_of_isSyntax {tree : Value} (h : tree.IsSyntax) : tree.identities = [] := by
  rw [List.eq_nil_iff_forall_not_mem]
  intro i hi
  have hsucc := (@rename_eq_self_iff Nat.succ tree).1 (rename_of_isSyntax h) i hi
  exact Nat.succ_ne_self i hsucc

end TinyLisp.Value

namespace TinyLisp

variable {new : Identity → Identity}

/-! ## Scopes and errors -/

/-- A reason to stop, with other identities in the value that it carries. -/
def Stop.rename (new : Identity → Identity) : Stop → Stop
  | .error (.notCallable refused) =>
    .error (.notCallable { refused with value := refused.value.rename new })
  | other => other

theorem Stop.rename_of_carried? {stop : Stop} (h : stop.carried? = none) :
    stop.rename new = stop := by
  unfold Stop.rename
  split
  · cases h
  · rfl

@[simp] theorem Stop.rename_id (stop : Stop) : stop.rename id = stop := by
  unfold Stop.rename
  split
  · rw [Value.rename_id]
  · rfl

/-- A scope with other identities in what it binds. -/
def Scope.rename (new : Identity → Identity) (scope : Scope) : Scope :=
  { scope with bindings := scope.bindings.map fun binding => (binding.1, binding.2.rename new) }

namespace Scope

@[simp] theorem rename_id (scope : Scope) : scope.rename id = scope := by
  simp [rename]

@[simp] theorem rename_empty (outer : Option ScopeId) :
    (empty outer).rename new = empty outer := rfl

@[simp] theorem local?_rename (scope : Scope) (name : String) :
    (scope.rename new).local? name = (scope.local? name).map (Value.rename new) := by
  obtain ⟨outer, bindings⟩ := scope
  show (bindings.map fun binding => (binding.1, binding.2.rename new)).lookup name =
    (bindings.lookup name).map (Value.rename new)
  induction bindings with
  | nil => rfl
  | cons binding bindings ih =>
    rw [List.map_cons, List.lookup_cons, List.lookup_cons, ih]
    cases name == binding.1 <;> rfl

theorem rename_bind (scope : Scope) (name : String) (v : Value) :
    (scope.bind name v).rename new = (scope.rename new).bind name (v.rename new) := by
  obtain ⟨outer, bindings⟩ := scope
  have hbindings : (bindName name v bindings).map (fun b => (b.1, b.2.rename new)) =
      bindName name (v.rename new) (bindings.map fun b => (b.1, b.2.rename new)) := by
    induction bindings with
    | nil => rfl
    | cons binding bindings ih =>
      rw [List.map_cons, bindName, bindName]
      split
      · rfl
      · rw [List.map_cons, ih]
  exact congrArg (Scope.mk outer) hbindings

theorem rename_bindAll (scope : Scope) (row : List (String × Value)) :
    (scope.bindAll row).rename new =
      (scope.rename new).bindAll (row.map fun binding => (binding.1, binding.2.rename new)) := by
  induction row generalizing scope with
  | nil => rfl
  | cons binding row ih =>
    have hrest := ih (scope.bind binding.1 binding.2)
    rw [rename_bind] at hrest
    exact hrest

end Scope

/-- The scope of a call with renamed arguments. -/
theorem Machine.rename_callScope (parameters : List String) (arguments : List Value)
    (outer : ScopeId) :
    (callScope parameters arguments outer).rename new =
      callScope parameters (arguments.map (Value.rename new)) outer := by
  unfold callScope
  rw [Scope.rename_bindAll, Scope.rename_empty, List.zip_map_right]
  rfl

end TinyLisp
