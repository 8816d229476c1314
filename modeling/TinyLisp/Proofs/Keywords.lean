import TinyLisp.Proofs.Evaluation.Confinement
import TinyLisp.Proofs.Hosts

/-!
# Keywords are syntax

A special form is recognised by the name at its head and by nothing else.  Where a
keyword stands at the heads of forms only, it makes no difference whether any scope
binds its name, and to what.

There are four groups.

* `Value.Occurs` and `Value.Ignores`: where a name stands in a tree, and values whose
  procedures do not use it.
* `Store.without`: a store with one binding left out.  Two stores that are the same
  without it answer every search for another name alike.
* `Confinement.unseen`: the coupling of two evaluations whose stores are the same
  without the binding.
* `Machine.keywords_are_syntax`: they end alike.
-/

namespace TinyLisp

open Machine (keyword?)

namespace Value

variable {name : String}

/-! ## Names in trees -/

/-- A name stands somewhere in a tree, outside quoted data, other than at the head of a
form.  A value in a list of bindings is not quoted, whatever its name is. -/
inductive Occurs (name : String) : Value → Prop where
  | identifier : Occurs name (identifier name)
  | head {items operands : List Value} (h : Occurs name (form items)) :
      Occurs name (form (form items :: operands))
  | operand {head part : Value} {operands : List Value} (hquote : keyword? head ≠ some .quotation)
      (hpart : part ∈ operands) (h : Occurs name part) : Occurs name (form (head :: operands))
  | value {head part : Value} {bound : String} {bindings body : List Value}
      (hkeyword : keyword? head = some .binding)
      (hpart : form [Value.identifier bound, part] ∈ bindings) (h : Occurs name part) :
      Occurs name (form (head :: form bindings :: body))

/-- In the bodies of the procedures that a value holds, a name stands at the heads of
forms only, and the value holds no function of the host. -/
inductive Ignores (name : String) : Value → Prop where
  | plain {v : Value} (h : v.isPlain = true) : Ignores name v
  | symbol (other : String) : Ignores name (symbol other)
  | identifier (other : String) : Ignores name (identifier other)
  | form {items : List Value} (hitems : ∀ item ∈ items, Ignores name item) :
      Ignores name (form items)
  | embedded {identity : Identity} {v : Value} (h : Ignores name v) :
      Ignores name (embedded identity v)
  | pair {cell : Identity} {head tail : Value} (hhead : Ignores name head)
      (htail : Ignores name tail) : Ignores name (pair cell head tail)
  | procedure {identity : Identity} {parameters : List String} {body : List Value}
      {scope : ScopeId} (hbody : ∀ part ∈ body, ¬ Occurs name part)
      (hparts : ∀ part ∈ body, Ignores name part) :
      Ignores name (procedure identity parameters body scope)
  | primitive (identity : Identity) (own : String) (primitive : Primitive) :
      Ignores name (native identity own (.primitive primitive))
  | setGlobal (identity : Identity) (own : String) (scope : ScopeId) :
      Ignores name (native identity own (.setGlobal scope))
  | callback {identity : Identity} {target : Value} (h : Ignores name target) :
      Ignores name (callback identity target)

theorem ignores_form {items : List Value} :
    (form items).Ignores name ↔ ∀ item ∈ items, item.Ignores name := by
  constructor
  · intro h
    cases h with
    | plain h => cases h
    | form hitems => exact hitems
  · exact .form

theorem ignores_embedded {identity : Identity} {v : Value} :
    (embedded identity v).Ignores name ↔ v.Ignores name := by
  constructor
  · intro h
    cases h with
    | plain h => cases h
    | embedded h => exact h
  · exact .embedded

theorem ignores_pair {cell : Identity} {head tail : Value} :
    (pair cell head tail).Ignores name ↔ head.Ignores name ∧ tail.Ignores name := by
  constructor
  · intro h
    cases h with
    | plain h => cases h
    | pair hhead htail => exact ⟨hhead, htail⟩
  · exact fun h => .pair h.1 h.2

theorem ignores_procedure {identity : Identity} {parameters : List String} {body : List Value}
    {scope : ScopeId} : (procedure identity parameters body scope).Ignores name ↔
      (∀ part ∈ body, ¬ part.Occurs name) ∧ ∀ part ∈ body, part.Ignores name := by
  constructor
  · intro h
    cases h with
    | plain h => cases h
    | procedure hbody hparts => exact ⟨hbody, hparts⟩
  · exact fun h => .procedure h.1 h.2

theorem ignores_callback {identity : Identity} {target : Value} :
    (callback identity target).Ignores name ↔ target.Ignores name := by
  constructor
  · intro h
    cases h with
    | plain h => cases h
    | callback h => exact h
  · exact .callback

theorem not_ignores_host {identity : Identity} {own : String} {function : HostFunction} :
    ¬ (native identity own (.host function)).Ignores name := by
  intro h
  cases h with
  | plain h => cases h

/-! ## What a form uses -/

variable {expression part : Value}

/-- A form with another keyword than that of quotation does not quote. -/
theorem not_quotation {head : Value} {keyword : Keyword} (h : keyword? head = some keyword)
    (hne : keyword ≠ .quotation) : keyword? head ≠ some .quotation := by
  rw [h]
  exact fun heq => hne (Option.some.inj heq)

/-- At the head of a form without a keyword no keyword stands. -/
theorem Occurs.at_head {keyword : Keyword} {head : Value} {operands : List Value}
    (hkeyword : keyword? head = none) (h : head.Occurs keyword.name) :
    (form (head :: operands)).Occurs keyword.name := by
  cases head with
  | identifier other =>
    cases h
    rw [keyword?, Keyword.ofName?_name] at hkeyword
    cases hkeyword
  | form items => exact .head h
  | _ => cases h

theorem Occurs.of_evaluates {keyword : Keyword} (h : expression.Evaluates part)
    (hpart : part.Occurs keyword.name) : expression.Occurs keyword.name := by
  cases h with
  | application hkeyword hmem =>
    rcases List.mem_cons.1 hmem with rfl | hmem
    · exact hpart.at_head hkeyword
    · exact .operand (by rw [hkeyword]; exact nofun) hmem hpart
  | operand hkeyword hlist hmem =>
    refine .operand (not_quotation hkeyword ?_) hmem hpart
    rintro rfl
    simp at hlist
  | definition hkeyword | assignment hkeyword =>
    exact .operand (not_quotation hkeyword nofun) (by simp) hpart

theorem Occurs.of_evaluatesInside (h : expression.EvaluatesInside part) (hpart : part.Occurs name) :
    expression.Occurs name := by
  cases h with
  | value hkeyword hmem => exact .value hkeyword hmem hpart
  | body hkeyword hmem =>
    exact .operand (not_quotation hkeyword nofun) (by simp [hmem]) hpart

theorem Occurs.of_closes {body : List Value} (h : expression.Closes body) (hpart : part ∈ body)
    (hoccurs : part.Occurs name) : expression.Occurs name := by
  cases h with
  | abstraction hkeyword | definition hkeyword =>
    exact .operand (not_quotation hkeyword nofun) (by simp [hpart]) hoccurs

theorem Occurs.of_assigns (h : expression.Assigns name) : expression.Occurs name := by
  cases h with
  | form hkeyword =>
    exact .operand (not_quotation hkeyword nofun) List.mem_cons_self .identifier

end Value

/-! ## Stores without a binding -/

/-- A scope with the bindings of one name left out. -/
def Scope.without (scope : Scope) (name : String) : Scope :=
  { scope with bindings := scope.bindings.filter fun binding => binding.1 ≠ name }

section

variable {name other : String} (v : Value) (bindings : List (String × Value))

theorem filter_bindName_self : (bindName name v bindings).filter (fun binding => binding.1 ≠ name) =
    bindings.filter fun binding => binding.1 ≠ name := by
  induction bindings with
  | nil => simp [bindName]
  | cons first rest ih =>
    obtain ⟨bound, old⟩ := first
    by_cases hbound : bound = name
    · simp [bindName, hbound]
    · rw [bindName, if_neg hbound, List.filter_cons, List.filter_cons, ih]

theorem filter_bindName_of_ne (h : other ≠ name) :
    (bindName other v bindings).filter (fun binding => binding.1 ≠ name) =
      bindName other v (bindings.filter fun binding => binding.1 ≠ name) := by
  induction bindings with
  | nil => simp [bindName, h]
  | cons first rest ih =>
    obtain ⟨bound, old⟩ := first
    by_cases hother : bound = other
    · subst hother
      simp [bindName, h]
    · by_cases hname : bound = name
      · simpa [bindName, hother, hname, Ne.symm h] using ih
      · simpa [bindName, hother, hname] using ih

theorem lookup_filter_of_ne (h : other ≠ name) :
    (bindings.filter fun binding => binding.1 ≠ name).lookup other = bindings.lookup other := by
  induction bindings with
  | nil => rfl
  | cons first rest ih =>
    obtain ⟨bound, old⟩ := first
    by_cases hbound : bound = name
    · subst hbound
      have hother : (other == bound) = false := by simpa using h
      simpa [List.lookup_cons, hother] using ih
    · rw [List.filter_cons_of_pos (by simpa using hbound), List.lookup_cons, List.lookup_cons, ih]

end

namespace Scope

variable {name other : String}

theorem without_bind_self (scope : Scope) (v : Value) :
    (scope.bind name v).without name = scope.without name :=
  congrArg (Scope.mk scope.outer) (filter_bindName_self v scope.bindings)

theorem without_bind_of_ne (scope : Scope) (v : Value) (h : other ≠ name) :
    (scope.bind other v).without name = (scope.without name).bind other v :=
  congrArg (Scope.mk scope.outer) (filter_bindName_of_ne v scope.bindings h)

theorem local?_without (scope : Scope) (h : other ≠ name) :
    (scope.without name).local? other = scope.local? other :=
  lookup_filter_of_ne scope.bindings h

end Scope

namespace Store

variable {s t : Store} {place : ScopeId} {name other : String}

/-- A store with the bindings of one name in one scope left out. -/
def without (s : Store) (place : ScopeId) (name : String) : Store :=
  { s with scopes := s.scopes.modify place (·.without name) }

theorem getElem?_without (i : ScopeId) : (s.without place name).scopes[i]? =
    if place = i then s.scopes[i]?.map (·.without name) else s.scopes[i]? :=
  Array.getElem?_modify

theorem size_without : (s.without place name).scopes.size = s.scopes.size :=
  Array.size_modify

theorem pathWithin_without (count : Nat) (i : ScopeId) :
    (s.without place name).pathWithin count i = s.pathWithin count i := by
  induction count generalizing i with
  | zero => rfl
  | succ count ih =>
    rw [pathWithin, pathWithin, getElem?_without]
    by_cases hi : place = i
    · rw [if_pos hi]
      rcases s.scopes[i]? with _ | ⟨_ | outer, bindings⟩
      · rfl
      · rfl
      · exact congrArg (i :: ·) (ih outer)
    · rw [if_neg hi]
      rcases s.scopes[i]? with _ | ⟨_ | outer, bindings⟩
      · rfl
      · rfl
      · exact congrArg (i :: ·) (ih outer)

theorem path_without (scope : ScopeId) : (s.without place name).path scope = s.path scope := by
  rw [path, path, pathWithin_without, size_without]

theorem rootOf_without (scope : ScopeId) :
    (s.without place name).rootOf scope = s.rootOf scope := by
  rw [rootOf, rootOf, path_without]

theorem local?_without (i : ScopeId) (h : other ≠ name) :
    (s.without place name).local? i other = s.local? i other := by
  rw [local?, getElem?_without, local?]
  split
  · cases s.scopes[i]? with
    | none => rfl
    | some scope => exact scope.local?_without h
  · rfl

theorem lookup?_without (scope : ScopeId) (h : other ≠ name) :
    (s.without place name).lookup? scope other = s.lookup? scope other := by
  rw [lookup?, lookup?, path_without]
  congr 1
  funext i
  rw [local?_without i h]

theorem owner?_without (scope : ScopeId) (h : other ≠ name) :
    (s.without place name).owner? scope other = s.owner? scope other := by
  rw [owner?, owner?, path_without]
  congr 1
  funext i
  rw [local?_without i h]

/-- A binding that is left out need not be added first. -/
theorem without_bind_self (v : Value) :
    (s.bind place name v).without place name = s.without place name := by
  have hscopes : (s.scopes.modify place (·.bind name v)).modify place (·.without name) =
      s.scopes.modify place (·.without name) := by
    apply Array.ext_getElem?
    intro i
    rw [Array.getElem?_modify, Array.getElem?_modify, Array.getElem?_modify]
    by_cases hi : place = i
    · simp [hi, Scope.without_bind_self, Function.comp_def]
    · simp [hi]
  exact congrArg (Store.mk · s.root s.nextIdentity s.output s.seed) hscopes

theorem without_bind_of_ne {scope : ScopeId} (v : Value) (h : ¬ (scope = place ∧ other = name)) :
    (s.bind scope other v).without place name = (s.without place name).bind scope other v := by
  have hscopes : (s.scopes.modify scope (·.bind other v)).modify place (·.without name) =
      (s.scopes.modify place (·.without name)).modify scope (·.bind other v) := by
    apply Array.ext_getElem?
    intro i
    rw [Array.getElem?_modify, Array.getElem?_modify, Array.getElem?_modify,
      Array.getElem?_modify]
    by_cases hplace : place = i
    · by_cases hscope : scope = i
      · have hother : other ≠ name := fun hother => h ⟨hscope.trans hplace.symm, hother⟩
        simp [hplace, hscope, Scope.without_bind_of_ne _ _ hother, Function.comp_def]
      · simp [hplace, hscope]
    · simp [hplace]
  exact congrArg (Store.mk · s.root s.nextIdentity s.output s.seed) hscopes

theorem without_addScope (new : Scope) : (s.addScope new).2.without place name =
    ((s.without place name).addScope
      (if place = s.scopes.size then new.without name else new)).2 := by
  have hscopes : (s.scopes.push new).modify place (·.without name) =
      (s.scopes.modify place (·.without name)).push
        (if place = s.scopes.size then new.without name else new) := by
    apply Array.ext_getElem?
    intro i
    rw [Array.getElem?_modify, Array.getElem?_push, Array.getElem?_push, Array.size_modify,
      Array.getElem?_modify]
    by_cases hi : i = s.scopes.size
    · by_cases hplace : place = s.scopes.size
      · simp [hi, hplace]
      · simp [hi, hplace]
    · simp [hi]
  exact congrArg (Store.mk · s.root s.nextIdentity s.output s.seed) hscopes

/-- What is bound in both stores is left out of both or bound without the binding. -/
theorem without_eq_bind (scope : ScopeId) (other : String) (v : Value)
    (h : s.without place name = t.without place name) :
    (s.bind scope other v).without place name = (t.bind scope other v).without place name := by
  by_cases hsame : scope = place ∧ other = name
  · obtain ⟨rfl, rfl⟩ := hsame
    rw [without_bind_self, without_bind_self, h]
  · rw [without_bind_of_ne v hsame, without_bind_of_ne v hsame, h]

theorem size_eq_of_without_eq (h : s.without place name = t.without place name) :
    t.scopes.size = s.scopes.size := by
  have hsize := congrArg (·.scopes.size) h
  simp only [size_without] at hsize
  exact hsize.symm

theorem without_eq_addScope (new : Scope) (h : s.without place name = t.without place name) :
    (s.addScope new).2.without place name = (t.addScope new).2.without place name := by
  rw [without_addScope, without_addScope, h, size_eq_of_without_eq h]

end Store

/-! ## The coupling -/

namespace Confinement

variable {c : Confinement} {s t : Store} {place scope : ScopeId} {keyword : Keyword} {name : String}

/-- No value that may be used makes use of the name. -/
def Unused (c : Confinement) (name : String) (s : Store) : Prop :=
  ∀ i v, c.Allows s i → s.Contains i v → v.Ignores name

theorem Unused.bind {other : String} {v : Value} (h : c.Unused name s) (hv : v.Ignores name) :
    c.Unused name (s.bind scope other v) := by
  intro i w hi hw
  rcases Store.contains_of_contains_bind hw with hw | ⟨-, rfl⟩
  · unfold Allows at hi
    rw [Store.size_scopes_bind] at hi
    exact h i w hi hw
  · exact hv

theorem Unused.addScope {new : Scope} (h : c.Unused name s)
    (hbindings : ∀ binding ∈ new.bindings, binding.2.Ignores name) :
    c.Unused name (s.addScope new).2 := by
  intro i w hi hw
  rcases Store.contains_of_contains_addScope hw with hw | ⟨-, binding, hbinding, rfl⟩
  · exact h i w (hi.imp_right fun hnew => ⟨hnew.1, hw.lt⟩) hw
  · exact hbindings binding hbinding

theorem Unused.ignores_of_lookup? {v : Value} (h : c.Unused name s) (hkeeps : c.Keeps s)
    (hscope : c.Allows s scope) {other : String} (hv : s.lookup? scope other = some v) :
    v.Ignores name := by
  obtain ⟨i, hi, hv⟩ := List.exists_of_findSome?_eq_some hv
  exact h i v (allows_of_mem_path hkeeps hscope hi) (Store.contains_of_local? hv)

/-- An expression that may be evaluated: where it may be evaluated, what it holds may be
used, and the keyword stands in it at the heads of forms only. -/
structure Innocent (c : Confinement) (keyword : Keyword) (s : Store) (scope : ScopeId)
    (expression : Value) : Prop where
  scope : c.Allows s scope
  value : c.AllowsValue s expression
  occurs : ¬ expression.Occurs keyword.name
  ignores : expression.Ignores keyword.name

theorem Innocent.of_evaluates {expression part : Value}
    (h : c.Innocent keyword s scope expression) (hpart : expression.Evaluates part) :
    c.Innocent keyword s scope part where
  scope := h.scope
  value := hpart.pass (fun _ => allowsValue_form.1) h.value
  occurs hoccurs := h.occurs (hoccurs.of_evaluates hpart)
  ignores := hpart.pass (fun _ => Value.ignores_form.1) h.ignores

/-- Two evaluations whose stores are the same but for a binding of a keyword's name. -/
def unseen (c : Confinement) (place : ScopeId) (keyword : Keyword) : Coupling where
  stores s t := s.without place keyword.name = t.without place keyword.name ∧ c.Keeps s ∧
    c.Unused keyword.name s
  later := Store.Grows
  source := c.Innocent keyword
  value s v := c.AllowsValue s v ∧ v.Ignores keyword.name
  binds s scope _ := c.Allows s scope
  later_refl := Store.grows_refl
  later_trans := Store.Grows.trans
  source_later hgrows h := ⟨h.scope.later hgrows, h.value.later hgrows, h.occurs, h.ignores⟩
  value_later hgrows h := ⟨h.1.later hgrows, h.2⟩
  binds_later hgrows h := h.later hgrows
  value_plain h := ⟨c.discipline.value_plain h, .plain h⟩
  value_symbol h := ⟨c.discipline.value_symbol h.1, .symbol _⟩
  value_form := by
    intro s items
    rw [allowsValue_form, Value.ignores_form]
    exact ⟨fun h item hitem => ⟨h.1 item hitem, h.2 item hitem⟩,
      fun h => ⟨fun item hitem => (h item hitem).1, fun item hitem => (h item hitem).2⟩⟩
  value_embedded := and_congr Iff.rfl Value.ignores_embedded
  value_pair := by
    intro s cell head tail
    rw [allowsValue_pair, Value.ignores_pair]
    exact and_and_and_comm
  value_callback := and_congr Iff.rfl Value.ignores_callback
  source_value h := ⟨h.value, h.ignores⟩
  source_part h hpart := h.of_evaluates hpart
  value_closure h hcloses := by
    refine ⟨allowsValue_procedure.2 ⟨?_, h.scope⟩, Value.ignores_procedure.2 ⟨?_, ?_⟩⟩
    · exact hcloses.pass (fun _ => allowsValue_form.1) h.value
    · exact fun part hpart hoccurs => h.occurs (hoccurs.of_closes hcloses hpart)
    · exact hcloses.pass (fun _ => Value.ignores_form.1) h.ignores
  same h := by
    have hsame := h.1
    exact ⟨congrArg (·.root) hsame.symm, congrArg (·.nextIdentity) hsame.symm,
      congrArg (·.output) hsame.symm, congrArg (·.seed) hsame.symm,
      Store.size_eq_of_without_eq hsame⟩
  lookup {s t scope other} h hsource := by
    have hne : other ≠ keyword.name := by
      rintro rfl
      exact hsource.occurs .identifier
    refine ⟨?_, fun v hv => ⟨?_, ?_⟩⟩
    · rw [← Store.lookup?_without scope hne, ← h.1, Store.lookup?_without scope hne]
    · exact allowsValue_of_lookup? h.2.1 hsource.scope hv
    · exact h.2.2.ignores_of_lookup? h.2.1 hsource.scope hv
  owner {s t scope other expression} h hsource hassigns := by
    have hne : other ≠ keyword.name := by
      rintro rfl
      exact hsource.occurs (.of_assigns hassigns)
    refine ⟨?_, fun owner howner => allows_of_owner? h.2.1 hsource.scope howner⟩
    rw [← Store.owner?_without scope hne, ← h.1, Store.owner?_without scope hne]
  rootOf {s t identity own scope} h _ := by
    rw [← Store.rootOf_without scope, ← h.1, Store.rootOf_without scope]
  read _ hnative := absurd hnative.2 Value.not_ignores_host
  bind h hbinds hv :=
    ⟨⟨Store.without_eq_bind _ _ _ h.1, h.2.1.bind _ hbinds hv.1, h.2.2.bind hv.2⟩,
      Store.grows_bind _ _ _⟩
  call {s t identity parameters body outer arguments} h hcallee harguments := by
    obtain ⟨hallowed, houter⟩ := allowsValue_procedure.1 hcallee.1
    obtain ⟨hoccurs, hignores⟩ := Value.ignores_procedure.1 hcallee.2
    have hframe := Machine.outer_callScope parameters arguments outer
    have hgrows := Store.grows_addScope (s := s) (Machine.callScope parameters arguments outer)
    have hgiven : ∀ binding ∈ (Machine.callScope parameters arguments outer).bindings,
        c.AllowsValue s binding.2 ∧ binding.2.Ignores keyword.name :=
      fun binding hbinding => harguments binding.2 (Machine.mem_callScope hbinding)
    refine ⟨⟨Store.without_eq_addScope _ h.1, ?_, ?_⟩, hgrows, ?_⟩
    · exact h.2.1.addScope hframe houter fun binding hbinding => (hgiven binding hbinding).1
    · exact h.2.2.addScope fun binding hbinding => (hgiven binding hbinding).2
    · intro part hpart
      exact ⟨allows_addScope h.2.1, (hallowed part hpart).later hgrows, hoccurs part hpart,
        hignores part hpart⟩
  enter {s t scope expression} h hsource := by
    have hgrows := Store.grows_addScope (s := s) (.empty (some scope))
    refine ⟨⟨Store.without_eq_addScope _ h.1, ?_, ?_⟩, hgrows, ?_, ?_⟩
    · exact h.2.1.addScope rfl hsource.scope fun binding hbinding => by cases hbinding
    · exact h.2.2.addScope fun binding hbinding => by cases hbinding
    · intro part hpart
      exact ⟨allows_addScope h.2.1,
        AllowsValue.later (hpart.pass (fun _ => allowsValue_form.1) hsource.value) hgrows,
        fun hoccurs => hsource.occurs (hoccurs.of_evaluatesInside hpart),
        hpart.pass (fun _ => Value.ignores_form.1) hsource.ignores⟩
    · exact fun _ => allows_addScope h.2.1
  quiet {s t} identity output seed h := by
    have hsame := congrArg
      (fun u : Store => { u with nextIdentity := identity, output := output, seed := seed }) h.1
    exact ⟨⟨hsame, h.2.1.quiet rfl rfl, h.2.2⟩, Store.grows_of_same rfl⟩

/-- No name is forbidden. -/
theorem unseen_free (c : Confinement) (place : ScopeId) (keyword : Keyword) :
    (c.unseen place keyword).Free where
  define hsource _ := hsource.scope
  setGlobal hstores hvalue hsets := by
    cases hsets with
    | symbol | string => exact allows_rootOf hstores.2.1 (hvalue.1 _ List.mem_cons_self)

end Confinement

/-! ## Evaluation -/

/-- A scope that can be got at in the evaluation of an expression: from the scope of the
evaluation, or from what the expression holds. -/
def Store.AtHand (s : Store) (env : ScopeId) (expression : Value) (i : ScopeId) : Prop :=
  ∃ start ∈ env :: expression.mentions s.root, s.Reaches start i

/-- The scopes at hand lead to no others. -/
def Confinement.atHand (s : Store) (env : ScopeId) (expression : Value) : Confinement where
  start := s
  usable := s.AtHand env expression
  closed := by
    rintro i j ⟨start, hstart, hreaches⟩ hlink
    exact ⟨start, hstart, hreaches.tail hlink⟩

/-- What a run ends with: a value or the reason why it gives none. -/
def Run.ending {α : Type} : EStateM.Result Stop Store α → Except Stop α
  | .ok a _ => .ok a
  | .error stop _ => .error stop

theorem Run.EndAlike.ending {C : Coupling} {α : Type} {s : Store} {P : Store → α → Prop}
    {result result' : EStateM.Result Stop Store α} (h : EndAlike C s P result result') :
    Run.ending result' = Run.ending result := by
  cases h with
  | ok | error => rfl

/-- A keyword is recognised at the head of a form whatever its name is bound to.  In an
expression, and in the bodies of all procedures at hand, the keyword stands at the heads
of forms only, outside quoted data.  Then a binding of its name, in any scope and to any
value, makes no difference: the evaluation ends with the same value or the same error,
prints the same text and leaves a store that is the same but for this binding. -/
theorem Machine.keywords_are_syntax (hosts : Hosts) [hosts.Coupled] (rounds depth : Nat)
    (keyword : Keyword) {s : Store} {env : ScopeId} {expression : Value}
    (hoccurs : ¬ expression.Occurs keyword.name) (hexpression : expression.Ignores keyword.name)
    (hbodies : ∀ i v, s.AtHand env expression i → s.Contains i v → v.Ignores keyword.name)
    (place : ScopeId) (v : Value) :
    let plain := (ofDepth hosts rounds depth).eval env expression s
    let bound := (ofDepth hosts rounds depth).eval env expression (s.bind place keyword.name v)
    Run.ending bound = Run.ending plain ∧
      (Run.left bound).output = (Run.left plain).output ∧
      (Run.left bound).without place keyword.name =
        (Run.left plain).without place keyword.name := by
  intro plain bound
  let c := Confinement.atHand s env expression
  let C := c.unseen place keyword
  have hunused : c.Unused keyword.name s := by
    intro i w hi hw
    rcases hi with hi | ⟨hnew, hlt⟩
    · exact hbodies i w hi hw
    · exact absurd hlt (Nat.not_lt_of_le hnew)
  have hsource : C.source s env expression :=
    ⟨.inl ⟨env, List.mem_cons_self, .refl⟩,
      fun i hi => .inl ⟨i, List.mem_cons_of_mem _ hi, .refl⟩, hoccurs, hexpression⟩
  have hstart : C.stores s (s.bind place keyword.name v) :=
    ⟨(Store.without_bind_self v).symm, c.keeps_start, hunused⟩
  have hends : Run.EndAlike C s C.value plain bound :=
    (coupled_ofDepth hosts (c.unseen_free place keyword) rounds depth).eval hsource s _ hstart
      (Store.grows_refl s)
  have hsame := hends.stores.1
  exact ⟨hends.ending, (congrArg Store.output hsame).symm, hsame.symm⟩

/-- A procedure decides by `if`, and `if` is bound in the root to a number. -/
theorem Machine.keywords_are_syntax_procedure :
    let body := Value.form [.identifier "if", .bool true, .string "yes", .string "no"]
    let s : Store := ⟨#[⟨none, [("f", .procedure 0 [] [body] 0)]⟩], 0, 1, "", 0⟩
    let expression := Value.form [.identifier "f"]
    usualHosts.Coupled ∧ ¬ expression.Occurs Keyword.conditional.name ∧
      (∀ i v, s.AtHand 0 expression i → s.Contains i v → v.Ignores Keyword.conditional.name) ∧
      Run.ending ((ofDepth usualHosts 1 9).eval 0 expression (s.bind 0 "if" (.int 5))) =
        .ok (.string "yes") := by
  intro body s expression
  have hoccurs : ¬ (Value.form [.identifier "f"]).Occurs Keyword.conditional.name := by
    intro h
    cases h with
    | operand _ hpart => cases hpart
  have hbody : ¬ (Value.form [.identifier "if", .bool true, .string "yes",
      .string "no"]).Occurs Keyword.conditional.name := by
    intro h
    cases h with
    | operand _ hpart h =>
      simp only [List.mem_cons, List.not_mem_nil, or_false] at hpart
      rcases hpart with rfl | rfl | rfl <;> cases h
  have hignores : body.Ignores Keyword.conditional.name := by
    apply Value.Ignores.form
    intro item hitem
    simp only [List.mem_cons, List.not_mem_nil, or_false] at hitem
    rcases hitem with rfl | rfl | rfl | rfl
    · exact .identifier _
    all_goals exact .plain rfl
  have hbodies : ∀ i v, s.AtHand 0 expression i → s.Contains i v →
      v.Ignores Keyword.conditional.name := by
    rintro i v - ⟨scope, hscope, name, hbinding⟩
    cases i with
    | zero =>
      cases hscope
      cases List.mem_singleton.1 hbinding
      exact .procedure (by simpa using hbody) (by simpa using hignores)
    | succ i => cases hscope
  have hexpression : expression.Ignores Keyword.conditional.name :=
    .form fun item hitem => List.mem_singleton.1 hitem ▸ .identifier "f"
  have hsame :=
    keywords_are_syntax usualHosts 1 9 .conditional hoccurs hexpression hbodies 0 (.int 5)
  exact ⟨inferInstance, hoccurs, hbodies, hsame.1.trans rfl⟩

end TinyLisp
