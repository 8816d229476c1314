import TinyLisp.Evaluator
import TinyLisp.Proofs.Tokens
import TinyLisp.Reader

/-!
# Couplings

A coupling is a relation between the stores of two evaluations that go on side by
side.  It names the expressions that may be evaluated, the values that may be used
and the names that may be bound.  Under it both evaluations end alike: with the same
result or for the same reason, and with stores that are related again.

The two evaluations may start in the same store.  What is shown then is an invariant
of one evaluation, and two machines that differ where the invariant does not hold can
still be compared.

There are five groups.

* `Stop.carried?`: the value that an error carries.
* `Value.Evaluates` and its neighbours: what a form evaluates, closes over and binds.
* `Coupling`: stores, expressions, values and names, with the laws that evaluation
  needs.
* `Run.Coupled`: two runs that end alike.  There is one rule for each way of putting
  runs together.
* The actions on the store, each of which is coupled with itself.
-/

namespace TinyLisp

/-- The value that an error carries: the one that cannot be invoked. -/
def Stop.carried? : Stop → Option Value
  | .error (.notCallable refused) => some refused.value
  | _ => none

/-- Values without any parts, names or scopes. -/
def Value.isPlain : Value → Bool
  | nil | undefined | bool _ | int _ | float _ | string _ => true
  | _ => false

/-! ## What a form does -/

namespace Value

open Machine (keyword?)

/-- An expression that a form may evaluate in the scope of the form. -/
inductive Evaluates : Value → Value → Prop where
  | application {head part : Value} {operands : List Value} (h : keyword? head = none)
      (hpart : part ∈ head :: operands) : Evaluates (form (head :: operands)) part
  | operand {keyword : Keyword} {head part : Value} {operands : List Value}
      (h : keyword? head = some keyword)
      (hkeyword : keyword ∈ [.conditional, .sequence, .guard, .loop]) (hpart : part ∈ operands) :
      Evaluates (form (head :: operands)) part
  | definition {head part : Value} {name : String} (h : keyword? head = some .definition) :
      Evaluates (form [head, identifier name, part]) part
  | assignment {head part : Value} {name : String} (h : keyword? head = some .assignment) :
      Evaluates (form [head, identifier name, part]) part

/-- An expression that a form may evaluate in the scope of its own bindings. -/
inductive EvaluatesInside : Value → Value → Prop where
  | value {head part : Value} {name : String} {bindings body : List Value}
      (h : keyword? head = some .binding) (hpart : form [identifier name, part] ∈ bindings) :
      EvaluatesInside (form (head :: form bindings :: body)) part
  | body {head part : Value} {bindings body : List Value} (h : keyword? head = some .binding)
      (hpart : part ∈ body) : EvaluatesInside (form (head :: form bindings :: body)) part

/-- The body of the procedure that a form makes. -/
inductive Closes : Value → List Value → Prop where
  | abstraction {head : Value} {parameters body : List Value}
      (h : keyword? head = some .abstraction) : Closes (form (head :: form parameters :: body)) body
  | definition {head target : Value} {parameters body : List Value}
      (h : keyword? head = some .definition) :
      Closes (form (head :: form (target :: parameters) :: body)) body

/-- A name that a form defines. -/
inductive Defines (name : String) : Value → Prop where
  | value {head expression : Value} (h : keyword? head = some .definition) :
      Defines name (form [head, identifier name, expression])
  | procedure {head : Value} {parameters body : List Value}
      (h : keyword? head = some .definition) :
      Defines name (form (head :: form (identifier name :: parameters) :: body))

/-- A name that a form gives a new value to. -/
inductive Assigns (name : String) : Value → Prop where
  | form {head expression : Value} (h : keyword? head = some .assignment) :
      Assigns name (form [head, identifier name, expression])

/-- A name that a setter of global names, which starts from `scope`, binds when it is
invoked with some arguments. -/
inductive SetsGlobal (scope : ScopeId) (name : String) : Value → List Value → Prop where
  | symbol (identity : Identity) (own : String) (value : Value) :
      SetsGlobal scope name (native identity own (.setGlobal scope)) [symbol name, value]
  | string (identity : Identity) (own : String) (value : Value) :
      SetsGlobal scope name (native identity own (.setGlobal scope)) [string name, value]

section

variable {P : Value → Prop} (hP : ∀ items, P (form items) → ∀ item ∈ items, P item)
include hP

/-- What passes from forms to their items passes to all that they evaluate. -/
theorem Evaluates.pass {expression part : Value} (h : expression.Evaluates part)
    (hexpression : P expression) : P part := by
  cases h with
  | application _ hpart => exact hP _ hexpression part hpart
  | operand _ _ hpart => exact hP _ hexpression part (List.mem_cons_of_mem _ hpart)
  | definition | assignment => exact hP _ hexpression part (by simp)

theorem EvaluatesInside.pass {expression part : Value} (h : expression.EvaluatesInside part)
    (hexpression : P expression) : P part := by
  cases h with
  | @value _ _ _ bindings _ _ hpart =>
    have hbindings : P (form bindings) := hP _ hexpression _ (by simp)
    exact hP _ (hP _ hbindings _ hpart) part (by simp)
  | body _ hpart => exact hP _ hexpression part (by simp [hpart])

theorem Closes.pass {expression : Value} {body : List Value} (h : expression.Closes body)
    (hexpression : P expression) : ∀ part ∈ body, P part := by
  cases h with
  | abstraction | definition =>
    intro part hpart
    exact hP _ hexpression part (by simp [hpart])

end

end Value

/-! ## Couplings -/

/-- How two evaluations go on side by side.  Where one store is named, it is that of
the first evaluation. -/
structure Coupling where
  /-- Stores that the two evaluations may have at the same time. -/
  stores : Store → Store → Prop
  /-- What a store may become. -/
  later : Store → Store → Prop
  /-- The expressions that may be evaluated in a scope. -/
  source : Store → ScopeId → Value → Prop
  /-- The values that may be used. -/
  value : Store → Value → Prop
  /-- The names that may be bound in a scope. -/
  binds : Store → ScopeId → String → Prop
  later_refl : ∀ s, later s s
  later_trans : ∀ {s t u}, later s t → later t u → later s u
  source_later : ∀ {s t scope expression}, later s t → source s scope expression →
    source t scope expression
  value_later : ∀ {s t v}, later s t → value s v → value t v
  binds_later : ∀ {s t scope name}, later s t → binds s scope name → binds t scope name
  -- values
  value_plain : ∀ {s v}, v.isPlain = true → value s v
  value_symbol : ∀ {s name}, value s (.identifier name) → value s (.symbol name)
  value_form : ∀ {s items}, value s (.form items) ↔ ∀ item ∈ items, value s item
  value_embedded : ∀ {s identity v}, value s (.embedded identity v) ↔ value s v
  value_pair : ∀ {s cell head tail},
    value s (.pair cell head tail) ↔ value s head ∧ value s tail
  value_callback : ∀ {s identity target}, value s (.callback identity target) ↔ value s target
  -- expressions
  source_value : ∀ {s scope expression}, source s scope expression → value s expression
  source_part : ∀ {s scope expression part}, source s scope expression →
    expression.Evaluates part → source s scope part
  value_closure : ∀ {s scope expression identity parameters body}, source s scope expression →
    expression.Closes body → value s (.procedure identity parameters body scope)
  -- stores
  same : ∀ {s t}, stores s t → t.root = s.root ∧ t.nextIdentity = s.nextIdentity ∧
    t.output = s.output ∧ t.seed = s.seed ∧ t.scopes.size = s.scopes.size
  lookup : ∀ {s t scope name}, stores s t → source s scope (.identifier name) →
    t.lookup? scope name = s.lookup? scope name ∧
      ∀ v, s.lookup? scope name = some v → value s v
  owner : ∀ {s t scope name expression}, stores s t → source s scope expression →
    expression.Assigns name → t.owner? scope name = s.owner? scope name ∧
      ∀ place, s.owner? scope name = some place → binds s place name
  rootOf : ∀ {s t identity own scope}, stores s t →
    value s (.native identity own (.setGlobal scope)) → t.rootOf scope = s.rootOf scope
  read : ∀ {s t identity own function limit tokens tree}, stores s t →
    value s (.native identity own (.host function)) → function.evaluates = true →
    (∀ token ∈ tokens, token.Solid) → tree ∈ (readAll limit tokens).1 → source s s.root tree
  bind : ∀ {s t scope name v}, stores s t → binds s scope name → value s v →
    stores (s.bind scope name v) (t.bind scope name v) ∧ later s (s.bind scope name v)
  call : ∀ {s t identity parameters body outer arguments}, stores s t →
    value s (.procedure identity parameters body outer) → (∀ a ∈ arguments, value s a) →
    stores (s.addScope (Machine.callScope parameters arguments outer)).2
        (t.addScope (Machine.callScope parameters arguments outer)).2 ∧
      later s (s.addScope (Machine.callScope parameters arguments outer)).2 ∧
      ∀ form ∈ body,
        source (s.addScope (Machine.callScope parameters arguments outer)).2 s.scopes.size form
  enter : ∀ {s t scope expression}, stores s t → source s scope expression →
    stores (s.addScope (.empty (some scope))).2 (t.addScope (.empty (some scope))).2 ∧
      later s (s.addScope (.empty (some scope))).2 ∧
      (∀ part, expression.EvaluatesInside part →
        source (s.addScope (.empty (some scope))).2 s.scopes.size part) ∧
      ∀ name, binds (s.addScope (.empty (some scope))).2 s.scopes.size name
  /-- Identities are taken, texts are printed and random numbers are drawn on both sides. -/
  quiet : ∀ {s t : Store} (identity : Identity) (output : String) (seed : UInt64), stores s t →
    stores { s with nextIdentity := identity, output := output, seed := seed }
        { t with nextIdentity := identity, output := output, seed := seed } ∧
      later s { s with nextIdentity := identity, output := output, seed := seed }

namespace Coupling

/-- Several values that may be used. -/
def values (C : Coupling) (s : Store) (items : List Value) : Prop :=
  ∀ item ∈ items, C.value s item

/-- Several expressions that may be evaluated in a scope. -/
def sources (C : Coupling) (s : Store) (scope : ScopeId) (body : List Value) : Prop :=
  ∀ form ∈ body, C.source s scope form

variable {C : Coupling} {s t : Store} {scope : ScopeId}

theorem values_later {items : List Value} (hlater : C.later s t) (h : C.values s items) :
    C.values t items :=
  fun item hitem => C.value_later hlater (h item hitem)

theorem sources_later {body : List Value} (hlater : C.later s t) (h : C.sources s scope body) :
    C.sources t scope body :=
  fun form hform => C.source_later hlater (h form hform)

theorem values_nil : C.values s [] := by
  intro item hitem
  cases hitem

theorem values_cons {item : Value} {items : List Value} :
    C.values s (item :: items) ↔ C.value s item ∧ C.values s items :=
  List.forall_mem_cons

theorem values_append {front rest : List Value} :
    C.values s (front ++ rest) ↔ C.values s front ∧ C.values s rest :=
  List.forall_mem_append

/-- Coupled stores agree in all but their scopes. -/
theorem exists_parts (h : C.stores s t) : ∃ scopes scopes' root identity output seed,
    s = ⟨scopes, root, identity, output, seed⟩ ∧ t = ⟨scopes', root, identity, output, seed⟩ := by
  obtain ⟨hroot, hidentity, houtput, hseed, -⟩ := C.same h
  refine ⟨s.scopes, t.scopes, s.root, s.nextIdentity, s.output, s.seed, rfl, ?_⟩
  rw [← hroot, ← hidentity, ← houtput, ← hseed]

end Coupling

/-! ## Runs that are coupled -/

namespace Run

/-- The store that a run leaves behind. -/
def left {α : Type} : EStateM.Result Stop Store α → Store
  | .ok _ after => after
  | .error _ after => after

/-- The value that a run gives or that its error carries. -/
def handed? : EStateM.Result Stop Store Value → Option Value
  | .ok value _ => some value
  | .error stop _ => stop.carried?

/-- How two runs end that are coupled, the first of which has begun in the store
`before`. -/
inductive EndAlike (C : Coupling) {α : Type} (before : Store) (result : Store → α → Prop) :
    EStateM.Result Stop Store α → EStateM.Result Stop Store α → Prop where
  | ok {a : α} {s t : Store} (hstores : C.stores s t) (hlater : C.later before s)
      (h : result s a) : EndAlike C before result (.ok a s) (.ok a t)
  | error {stop : Stop} {s t : Store} (hstores : C.stores s t) (hlater : C.later before s)
      (h : ∀ v, stop.carried? = some v → C.value s v) :
      EndAlike C before result (.error stop s) (.error stop t)

/-- From all coupled stores, the first of which `before` may become, the two runs end
alike.  What they give satisfies `result`. -/
def Coupled (C : Coupling) {α : Type} (before : Store) (result : Store → α → Prop)
    (run run' : Run α) : Prop :=
  ∀ s t, C.stores s t → C.later before s → EndAlike C s result (run s) (run' t)

variable {α β : Type} {C : Coupling} {s t : Store} {P : Store → α → Prop} {Q : Store → β → Prop}

theorem EndAlike.stores {result result' : EStateM.Result Stop Store α}
    (h : EndAlike C s P result result') : C.stores (left result) (left result') := by
  cases h with
  | ok hstores => exact hstores
  | error hstores => exact hstores

theorem EndAlike.after {result result' : EStateM.Result Stop Store α} (hlater : C.later s t)
    (h : EndAlike C t P result result') : EndAlike C s P result result' := by
  cases h with
  | ok hstores hlater' h => exact .ok hstores (C.later_trans hlater hlater') h
  | error hstores hlater' h => exact .error hstores (C.later_trans hlater hlater') h

/-- Any result will do. -/
def anything : Store → α → Prop :=
  fun _ _ => True

theorem coupled_pure {a : α} (h : ∀ t, C.later s t → P t a) :
    Coupled C s P (pure a) (pure a) :=
  fun t _ hstores hlater => .ok hstores (C.later_refl t) (h t hlater)

theorem coupled_value {v : Value} (h : C.value s v) : Coupled C s C.value (pure v) (pure v) :=
  coupled_pure fun _ hlater => C.value_later hlater h

theorem coupled_throw {stop : Stop} (h : ∀ v, stop.carried? = some v → C.value s v) :
    Coupled C s P (throw stop) (throw stop) :=
  fun t _ hstores hlater =>
    .error hstores (C.later_refl t) fun v hv => C.value_later hlater (h v hv)

theorem coupled_fail {error : LispError} (h : Stop.carried? (.error error) = none) :
    Coupled C s P (fail error) (fail error) :=
  coupled_throw fun v hv => by
    rw [h] at hv
    cases hv

theorem coupled_fault {fault : Fault} : Coupled C s P (Run.fault fault) (Run.fault fault) :=
  coupled_throw fun v hv => by cases hv

theorem coupled_later {run run' : Run α} (hlater : C.later s t) (h : Coupled C s P run run') :
    Coupled C t P run run' :=
  fun u w hstores hu => h u w hstores (C.later_trans hlater hu)

/-- One run after another. -/
theorem coupled_bind {run run' : Run α} {next next' : α → Run β} (h : Coupled C s P run run')
    (hnext : ∀ t a, C.later s t → P t a → Coupled C t Q (next a) (next' a)) :
    Coupled C s Q (run >>= next) (run' >>= next') := by
  intro t u hstores hlater
  show EndAlike C t Q (EStateM.bind run next t) (EStateM.bind run' next' u)
  unfold EStateM.bind
  have hends := h t u hstores hlater
  generalize run t = result at hends ⊢
  generalize run' u = result' at hends ⊢
  cases hends with
  | ok hstores' hlater' ha =>
    exact (hnext _ _ (C.later_trans hlater hlater') ha _ _ hstores' (C.later_refl _)).after hlater'
  | error hstores' hlater' hcarried => exact .error hstores' hlater' hcarried

theorem coupled_ite {c : Prop} [Decidable c] {run run' other other' : Run α}
    (h : Coupled C s P run run') (hother : Coupled C s P other other') :
    Coupled C s P (if c then run else other) (if c then run' else other') := by
  by_cases hc : c
  · rw [if_pos hc, if_pos hc]
    exact h
  · rw [if_neg hc, if_neg hc]
    exact hother

/-- A fault that becomes an error of a native carries nothing either. -/
theorem coupled_inNative {name : String} {run run' : Run α} (h : Coupled C s P run run') :
    Coupled C s P (inNative name run) (inNative name run') := by
  intro t u hstores hlater
  have hends := h t u hstores hlater
  unfold inNative
  generalize run t = result at hends ⊢
  generalize run' u = result' at hends ⊢
  cases hends with
  | ok hstores hlater ha => exact .ok hstores hlater ha
  | @error stop _ _ hstores hlater hcarried =>
    cases stop with
    | fault fault => exact .error hstores hlater fun v hv => by cases hv
    | error | tooDeep | tooLong => exact .error hstores hlater hcarried

/-! ## Rows of runs -/

/-- The results for the items of a row, in order. -/
theorem coupled_mapM {γ : Type} {f f' : γ → Run Value} {items : List γ}
    (h : ∀ item ∈ items, Coupled C s C.value (f item) (f' item)) :
    Coupled C s C.values (items.mapM f) (items.mapM f') := by
  induction items generalizing s with
  | nil => exact coupled_pure fun _ _ => Coupling.values_nil
  | cons item items ih =>
    rw [List.mapM_cons, List.mapM_cons]
    apply coupled_bind (h item (by simp))
    intro t v hlater hv
    apply coupled_bind (ih fun item hitem => coupled_later hlater (h item (by simp [hitem])))
    intro u vs hlater' hvs
    apply coupled_pure
    intro w hlater''
    exact Coupling.values_cons.2
      ⟨C.value_later (C.later_trans hlater' hlater'') hv, Coupling.values_later hlater'' hvs⟩

/-- Results that hold nothing, in order. -/
theorem coupled_mapM_anything {γ : Type} {f f' : γ → Run α} {items : List γ}
    (h : ∀ item ∈ items, Coupled C s anything (f item) (f' item)) :
    Coupled C s anything (items.mapM f) (items.mapM f') := by
  induction items generalizing s with
  | nil => exact coupled_pure fun _ _ => trivial
  | cons item items ih =>
    rw [List.mapM_cons, List.mapM_cons]
    apply coupled_bind (h item (by simp))
    intro t v hlater _
    apply coupled_bind (ih fun item hitem => coupled_later hlater (h item (by simp [hitem])))
    exact fun _ _ _ _ => coupled_pure fun _ _ => trivial

/-- A value carried from item to item. -/
theorem coupled_foldlM {γ : Type} {f f' : Value → γ → Run Value} {items : List γ} {v : Value}
    (hv : C.value s v)
    (h : ∀ t item total, item ∈ items → C.later s t → C.value t total →
      Coupled C t C.value (f total item) (f' total item)) :
    Coupled C s C.value (items.foldlM f v) (items.foldlM f' v) := by
  induction items generalizing s v with
  | nil => exact coupled_value hv
  | cons item items ih =>
    rw [List.foldlM_cons, List.foldlM_cons]
    apply coupled_bind (h s item v (by simp) (C.later_refl s) hv)
    intro t total hlater htotal
    apply ih htotal
    intro u item' total' hitem hlater' htotal'
    exact h u item' total' (by simp [hitem]) (C.later_trans hlater hlater') htotal'

/-- The value of the last of several steps. -/
theorem coupled_lastOf {γ : Type} {f f' : γ → Run Value} {items : List γ} {v : Value}
    (hv : C.value s v)
    (h : ∀ t item, item ∈ items → C.later s t → Coupled C t C.value (f item) (f' item)) :
    Coupled C s C.value (lastOf v f items) (lastOf v f' items) :=
  coupled_foldlM hv fun t item _ hitem hlater _ => h t item hitem hlater

/-- Steps without a result. -/
theorem coupled_forM {γ : Type} {f f' : γ → Run PUnit} {items : List γ}
    (h : ∀ item ∈ items, Coupled C s anything (f item) (f' item)) :
    Coupled C s anything (items.forM f) (items.forM f') := by
  induction items generalizing s with
  | nil => exact coupled_pure fun _ _ => trivial
  | cons item items ih =>
    apply coupled_bind (h item (by simp))
    intro t _ hlater _
    exact ih fun item hitem => coupled_later hlater (h item (by simp [hitem]))

/-- The items that pass a test, behind those already kept. -/
theorem coupled_filterAuxM {f f' : Value → Run Bool} {items kept : List Value}
    (hitems : C.values s items) (hkept : C.values s kept)
    (h : ∀ item ∈ items, Coupled C s anything (f item) (f' item)) :
    Coupled C s C.values (items.filterAuxM f kept) (items.filterAuxM f' kept) := by
  induction items generalizing s kept with
  | nil => exact coupled_pure fun _ hlater => Coupling.values_later hlater hkept
  | cons item items ih =>
    obtain ⟨hitem, hitems⟩ := Coupling.values_cons.1 hitems
    apply coupled_bind (h item (by simp))
    intro t passes hlater _
    apply ih (Coupling.values_later hlater hitems)
    · cases passes with
      | false => exact Coupling.values_later hlater hkept
      | true => exact Coupling.values_later hlater (Coupling.values_cons.2 ⟨hitem, hkept⟩)
    · intro item' hitem'
      exact coupled_later hlater (h item' (by simp [hitem']))

theorem coupled_filterM {f f' : Value → Run Bool} {items : List Value} (hitems : C.values s items)
    (h : ∀ item ∈ items, Coupled C s anything (f item) (f' item)) :
    Coupled C s C.values (items.filterM f) (items.filterM f') := by
  apply coupled_bind (coupled_filterAuxM hitems Coupling.values_nil h)
  intro t kept _ hkept
  apply coupled_pure
  intro u hlater item hitem
  exact C.value_later hlater (hkept item (List.mem_reverse.1 hitem))

/-! ## The store -/

/-- Runs that depend on something that the stores have in common. -/
theorem coupled_read (read : Store → β) (next next' : β → Run α)
    (h : ∀ t u, C.stores t u → C.later s t → read u = read t ∧
      Coupled C t P (next (read t)) (next' (read t))) :
    Coupled C s P (do next (read (← get))) (do next' (read (← get))) := by
  intro t u hstores hlater
  obtain ⟨hread, hnext⟩ := h t u hstores hlater
  show EndAlike C t P (next (read t) t) (next' (read u) u)
  rw [hread]
  exact hnext t u hstores (C.later_refl t)

/-- A change of both stores. -/
theorem coupled_change {change : Store → α × Store}
    (h : ∀ t u, C.stores t u → C.later s t → (change u).1 = (change t).1 ∧
      C.stores (change t).2 (change u).2 ∧ C.later t (change t).2 ∧ P (change t).2 (change t).1) :
    Coupled C s P (modifyGet change) (modifyGet change) := by
  intro t u hstores hlater
  obtain ⟨hresult, hstores', hlater', hP⟩ := h t u hstores hlater
  show EndAlike C t P (.ok (change t).1 (change t).2) (.ok (change u).1 (change u).2)
  rw [hresult]
  exact .ok hstores' hlater' hP

theorem coupled_lookup {scope : ScopeId} {name : String}
    (hsource : C.source s scope (.identifier name)) :
    Coupled C s C.value (lookup scope name) (lookup scope name) := by
  intro t u hstores hlater
  obtain ⟨hlookup, hvalue⟩ := C.lookup hstores (C.source_later hlater hsource)
  cases hfound : t.lookup? scope name with
  | none =>
    rw [lookup_of_none hfound, lookup_of_none (hlookup.trans hfound)]
    exact .error hstores (C.later_refl t) fun v hv => by cases hv
  | some v =>
    rw [lookup_of_some hfound, lookup_of_some (hlookup.trans hfound)]
    exact .ok hstores (C.later_refl t) (hvalue v hfound)

theorem coupled_bindName {scope : ScopeId} {name : String} {v : Value}
    (hbinds : C.binds s scope name) (hv : C.value s v) :
    Coupled C s anything (bind scope name v) (bind scope name v) := by
  apply coupled_change
  intro t u hstores hlater
  obtain ⟨hstores', hlater'⟩ :=
    C.bind hstores (C.binds_later hlater hbinds) (C.value_later hlater hv)
  exact ⟨rfl, hstores', hlater', trivial⟩

theorem coupled_assign {scope : ScopeId} {name : String} {expression v : Value}
    (hsource : C.source s scope expression) (hassigns : expression.Assigns name)
    (hv : C.value s v) : Coupled C s anything (assign scope name v) (assign scope name v) := by
  intro t u hstores hlater
  obtain ⟨howner, hbinds⟩ := C.owner hstores (C.source_later hlater hsource) hassigns
  cases hfound : t.owner? scope name with
  | none =>
    rw [assign_of_none v hfound, assign_of_none v (howner.trans hfound)]
    exact .error hstores (C.later_refl t) fun v hv => by cases hv
  | some place =>
    rw [assign_of_some v hfound, assign_of_some v (howner.trans hfound)]
    obtain ⟨hstores', hlater'⟩ := C.bind hstores (hbinds place hfound) (C.value_later hlater hv)
    exact .ok hstores' hlater' trivial

/-- The body of a procedure may be evaluated in the scope of a call. -/
theorem coupled_callFrame {identity : Identity} {parameters : List String}
    {body arguments : List Value} {outer : ScopeId}
    (hcallee : C.value s (.procedure identity parameters body outer))
    (harguments : C.values s arguments) :
    Coupled C s (fun t frame => C.sources t frame body)
      (newScope (Machine.callScope parameters arguments outer))
      (newScope (Machine.callScope parameters arguments outer)) := by
  apply coupled_change
  intro t u hstores hlater
  obtain ⟨hstores', hlater', hbody⟩ :=
    C.call hstores (C.value_later hlater hcallee) (Coupling.values_later hlater harguments)
  exact ⟨(C.same hstores).2.2.2.2, hstores', hlater', hbody⟩

/-- What a form evaluates in the scope of its own bindings may be evaluated there, and
every name may be bound there. -/
theorem coupled_enter {scope : ScopeId} {expression : Value}
    (hsource : C.source s scope expression) :
    Coupled C s
      (fun t inner => (∀ part, expression.EvaluatesInside part → C.source t inner part) ∧
        ∀ name, C.binds t inner name)
      (newScope (.empty (some scope))) (newScope (.empty (some scope))) := by
  apply coupled_change
  intro t u hstores hlater
  obtain ⟨hstores', hlater', hinner⟩ := C.enter hstores (C.source_later hlater hsource)
  exact ⟨(C.same hstores).2.2.2.2, hstores', hlater', hinner⟩

theorem coupled_reserve {count : Nat} :
    Coupled C s anything (reserve count) (reserve count) := by
  apply coupled_change
  intro t u hstores _
  obtain ⟨_, _, _, identity, output, seed, rfl, rfl⟩ := Coupling.exists_parts hstores
  obtain ⟨hstores', hlater'⟩ := C.quiet (identity + count) output seed hstores
  exact ⟨rfl, hstores', hlater', trivial⟩

theorem coupled_print {text : String} : Coupled C s anything (print text) (print text) := by
  apply coupled_change
  intro t u hstores _
  obtain ⟨_, _, _, identity, output, seed, rfl, rfl⟩ := Coupling.exists_parts hstores
  obtain ⟨hstores', hlater'⟩ := C.quiet identity (output ++ text) seed hstores
  exact ⟨rfl, hstores', hlater', trivial⟩

theorem coupled_draw : Coupled C s anything (modifyGet Store.draw) (modifyGet Store.draw) := by
  apply coupled_change
  intro t u hstores _
  obtain ⟨_, _, _, identity, output, seed, rfl, rfl⟩ := Coupling.exists_parts hstores
  obtain ⟨hstores', hlater'⟩ := C.quiet identity output (Store.nextSeed seed) hstores
  exact ⟨rfl, hstores', hlater', trivial⟩

theorem coupled_newPair {head tail : Value} (hhead : C.value s head) (htail : C.value s tail) :
    Coupled C s C.value (newPair head tail) (newPair head tail) := by
  apply coupled_bind coupled_reserve
  intro t cell hlater _
  exact coupled_value (C.value_pair.2 ⟨C.value_later hlater hhead, C.value_later hlater htail⟩)

/-- A chain of pairs holds what its elements and its ending hold. -/
theorem value_chain {first : Identity} {items : List Value} {ending : Value}
    (hitems : C.values s items) (hending : C.value s ending) :
    C.value s (Value.chain first items ending) := by
  induction items with
  | nil => exact hending
  | cons item items ih =>
    obtain ⟨hitem, hitems⟩ := Coupling.values_cons.1 hitems
    rw [Value.chain_cons]
    exact C.value_pair.2 ⟨hitem, ih hitems⟩

theorem coupled_newChain {items : List Value} {ending : Value} (hitems : C.values s items)
    (hending : C.value s ending) :
    Coupled C s C.value (newChain items ending) (newChain items ending) := by
  apply coupled_bind coupled_reserve
  intro t first hlater _
  exact coupled_value
    (value_chain (Coupling.values_later hlater hitems) (C.value_later hlater hending))

theorem coupled_newList {items : List Value} (hitems : C.values s items) :
    Coupled C s C.value (newList items) (newList items) :=
  coupled_newChain hitems (C.value_plain rfl)

end Run

end TinyLisp
