import TinyLisp.Proofs.Evaluation.Levels

/-!
# Disciplines

A discipline names the stores that may arise in an evaluation, the ways in which
a store may go on changing, and the scopes and the values that may be used in a
store.  What is shown of a run under a discipline is that it only leads to such
stores and to such values, whether it ends well or not.

Two runs are always looked at together: they must do the same wherever the
discipline holds.  A machine that looks at every call and stops at one that
breaks the discipline is then no different from a machine that does not look.

There are four groups.

* `Discipline`: stores, scopes and values, with the laws that evaluation needs.
* `Discipline.coupling`: a discipline couples every store with itself.
* `Run.Agree`: two runs that do the same and keep a discipline, which are the runs
  that end alike under its coupling.
* `Machine.Agree`: two machines that do the same.  The machine of any depth keeps
  every discipline.
-/

namespace TinyLisp

variable {hosts : Hosts}

/-! ## Disciplines -/

/-- What an evaluation keeps to. -/
structure Discipline where
  /-- The stores that may arise. -/
  store : Store → Prop
  /-- What a store may become. -/
  later : Store → Store → Prop
  /-- The scopes that may be used. -/
  scope : Store → ScopeId → Prop
  /-- The values that may be used. -/
  value : Store → Value → Prop
  later_refl : ∀ s, later s s
  later_trans : ∀ {s t u}, later s t → later t u → later s u
  scope_later : ∀ {s t scope'}, later s t → scope s scope' → scope t scope'
  value_later : ∀ {s t v}, later s t → value s v → value t v
  -- values
  value_plain : ∀ {s v}, v.isPlain = true → value s v
  value_symbol : ∀ {s name}, value s (.identifier name) → value s (.symbol name)
  value_form : ∀ {s items}, value s (.form items) ↔ ∀ item ∈ items, value s item
  value_embedded : ∀ {s identity v}, value s (.embedded identity v) ↔ value s v
  value_pair : ∀ {s cell head tail},
    value s (.pair cell head tail) ↔ value s head ∧ value s tail
  value_procedure : ∀ {s identity parameters body scope'},
    value s (.procedure identity parameters body scope') ↔
      (∀ form ∈ body, value s form) ∧ scope s scope'
  value_callback : ∀ {s identity target}, value s (.callback identity target) ↔ value s target
  value_setGlobal : ∀ {s identity name scope'},
    value s (.native identity name (.setGlobal scope')) → scope s scope'
  value_host : ∀ {s identity name function}, store s →
    value s (.native identity name (.host function)) → function.evaluates = true →
    scope s s.root
  value_read : ∀ {s limit tokens tree}, (∀ token ∈ tokens, token.Solid) →
    tree ∈ (readAll limit tokens).1 → value s tree
  -- stores
  lookup : ∀ {s scope' name v}, store s → scope s scope' → s.lookup? scope' name = some v →
    value s v
  owner : ∀ {s scope' name place}, store s → scope s scope' → s.owner? scope' name = some place →
    scope s place
  rootOf : ∀ {s scope'}, store s → scope s scope' → scope s (s.rootOf scope')
  bind : ∀ {s scope' v} (name : String), store s → scope s scope' → value s v →
    store (s.bind scope' name v) ∧ later s (s.bind scope' name v)
  addScope : ∀ {s new outer}, store s → new.outer = some outer → scope s outer →
    (∀ binding ∈ new.bindings, value s binding.2) →
    store (s.addScope new).2 ∧ later s (s.addScope new).2 ∧
      scope (s.addScope new).2 (s.addScope new).1
  quiet : ∀ {s t}, store s → t.scopes = s.scopes → t.root = s.root → store t ∧ later s t

namespace Discipline

/-- Several values that may be used. -/
def values (D : Discipline) (s : Store) (items : List Value) : Prop :=
  ∀ item ∈ items, D.value s item

variable {D : Discipline} {s t : Store}

theorem values_later {items : List Value} (hlater : D.later s t) (h : D.values s items) :
    D.values t items :=
  fun item hitem => D.value_later hlater (h item hitem)

/-! ## The coupling -/

/-- Every store is coupled with itself. -/
def coupling (D : Discipline) : Coupling where
  stores s t := s = t ∧ D.store s
  later := D.later
  source s scope expression := D.scope s scope ∧ D.value s expression
  value := D.value
  binds s scope _ := D.scope s scope
  later_refl := D.later_refl
  later_trans := D.later_trans
  source_later hlater h := ⟨D.scope_later hlater h.1, D.value_later hlater h.2⟩
  value_later := D.value_later
  binds_later := D.scope_later
  value_plain := D.value_plain
  value_symbol := D.value_symbol
  value_form := D.value_form
  value_embedded := D.value_embedded
  value_pair := D.value_pair
  value_callback := D.value_callback
  source_value h := h.2
  source_part h hpart := ⟨h.1, hpart.pass (fun _ => D.value_form.1) h.2⟩
  value_closure h hcloses :=
    D.value_procedure.2 ⟨hcloses.pass (fun _ => D.value_form.1) h.2, h.1⟩
  same h := by
    obtain ⟨rfl, -⟩ := h
    exact ⟨rfl, rfl, rfl, rfl, rfl⟩
  lookup h hsource := by
    obtain ⟨rfl, hstore⟩ := h
    exact ⟨rfl, fun v hv => D.lookup hstore hsource.1 hv⟩
  owner h hsource _ := by
    obtain ⟨rfl, hstore⟩ := h
    exact ⟨rfl, fun place hplace => D.owner hstore hsource.1 hplace⟩
  rootOf h _ := by
    obtain ⟨rfl, -⟩ := h
    rfl
  read h hnative hevaluates htokens htree :=
    ⟨D.value_host h.2 hnative hevaluates, D.value_read htokens htree⟩
  bind h hbinds hv := by
    obtain ⟨rfl, hstore⟩ := h
    obtain ⟨hstore', hlater⟩ := D.bind _ hstore hbinds hv
    exact ⟨⟨rfl, hstore'⟩, hlater⟩
  call h hcallee harguments := by
    obtain ⟨rfl, hstore⟩ := h
    obtain ⟨hbody, houter⟩ := D.value_procedure.1 hcallee
    obtain ⟨hstore', hlater, hframe⟩ := D.addScope hstore (Machine.outer_callScope _ _ _) houter
      fun binding hbinding => harguments binding.2 (Machine.mem_callScope hbinding)
    exact ⟨⟨rfl, hstore'⟩, hlater, fun form hform =>
      ⟨hframe, D.value_later hlater (hbody form hform)⟩⟩
  enter {_ _ scope _} h hsource := by
    obtain ⟨rfl, hstore⟩ := h
    have houter : (Scope.empty (some scope)).outer = some scope := rfl
    obtain ⟨hstore', hlater, hinner⟩ := D.addScope hstore houter hsource.1
      fun binding hbinding => by cases hbinding
    refine ⟨⟨rfl, hstore'⟩, hlater, fun part hpart => ⟨hinner, ?_⟩, fun _ => hinner⟩
    exact D.value_later hlater (hpart.pass (fun _ => D.value_form.1) hsource.2)
  quiet identity output seed h := by
    obtain ⟨rfl, hstore⟩ := h
    obtain ⟨hstore', hlater⟩ := D.quiet (t := ⟨_, _, identity, output, seed⟩) hstore rfl rfl
    exact ⟨⟨rfl, hstore'⟩, hlater⟩

/-- A discipline forbids no names. -/
theorem coupling_free (D : Discipline) : D.coupling.Free where
  define hsource _ := hsource.1
  setGlobal hstores hvalue hsets := by
    obtain ⟨-, hstore⟩ := hstores
    cases hsets with
    | symbol | string => exact D.rootOf hstore (D.value_setGlobal hvalue)

end Discipline

/-! ## Runs that agree -/

namespace Run

/-- What holds where a run ends that has begun in the store `before`. -/
def Ends {α : Type} (D : Discipline) (before : Store) (result : Store → α → Prop) :
    EStateM.Result Stop Store α → Prop
  | .ok a after => D.store after ∧ D.later before after ∧ result after a
  | .error stop after =>
    D.store after ∧ D.later before after ∧ ∀ v, stop.carried? = some v → D.value after v

/-- From every store that `before` may become, the two runs do the same and keep
the discipline.  What they give satisfies `result`. -/
def Agree {α : Type} (D : Discipline) (before : Store) (result : Store → α → Prop)
    (run run' : Run α) : Prop :=
  ∀ s, D.store s → D.later before s → run s = run' s ∧ Ends D s result (run s)

variable {α β : Type} {D : Discipline} {s : Store} {P : Store → α → Prop} {Q : Store → β → Prop}

theorem Ends.left {result : EStateM.Result Stop Store α} (h : Ends D s P result) :
    D.store (left result) ∧ D.later s (left result) := by
  cases result with
  | ok a after => exact ⟨h.1, h.2.1⟩
  | error stop after => exact ⟨h.1, h.2.1⟩

/-- A value that is given or that an error carries may be used afterwards. -/
theorem Ends.handed {result : EStateM.Result Stop Store Value} (h : Ends D s D.value result)
    {v : Value} (hv : handed? result = some v) : D.value (Run.left result) v := by
  cases result with
  | ok value after =>
    cases hv
    exact h.2.2
  | error stop after => exact h.2.2 v hv

theorem agree_iff_coupled {run run' : Run α} :
    Agree D s P run run' ↔ Coupled D.coupling s P run run' := by
  constructor
  · intro h t u hstores hlater
    obtain ⟨rfl, hstore⟩ := hstores
    obtain ⟨heq, hends⟩ := h t hstore hlater
    rw [← heq]
    cases hrun : run t with
    | ok a after =>
      rw [hrun] at hends
      exact .ok ⟨rfl, hends.1⟩ hends.2.1 hends.2.2
    | error stop after =>
      rw [hrun] at hends
      exact .error ⟨rfl, hends.1⟩ hends.2.1 hends.2.2
  · intro h t hstore hlater
    have hends := h t t ⟨rfl, hstore⟩ hlater
    generalize run t = result at hends ⊢
    generalize run' t = result' at hends ⊢
    cases hends with
    | ok hstores hlater' ha =>
      obtain ⟨rfl, hstore'⟩ := hstores
      exact ⟨rfl, hstore', hlater', ha⟩
    | error hstores hlater' hcarried =>
      obtain ⟨rfl, hstore'⟩ := hstores
      exact ⟨rfl, hstore', hlater', hcarried⟩

theorem agree_pure {a : α} (h : ∀ t, D.store t → D.later s t → P t a) :
    Agree D s P (pure a) (pure a) :=
  fun t hstore hlater => ⟨rfl, hstore, D.later_refl t, h t hstore hlater⟩

/-- What is given is given in a store that may arise. -/
theorem Agree.with_store {run run' : Run α} (h : Agree D s P run run') :
    Agree D s (fun t a => D.store t ∧ P t a) run run' := by
  intro t hstore hlater
  obtain ⟨heq, hends⟩ := h t hstore hlater
  refine ⟨heq, ?_⟩
  cases hrun : run t with
  | ok a after =>
    rw [hrun] at hends
    exact ⟨hends.1, hends.2.1, hends.1, hends.2.2⟩
  | error stop after =>
    rw [hrun] at hends
    exact hends

/-- One run after another. -/
theorem agree_bind {run run' : Run α} {next next' : α → Run β} (h : Agree D s P run run')
    (hnext : ∀ t a, D.store t → D.later s t → P t a → Agree D t Q (next a) (next' a)) :
    Agree D s Q (run >>= next) (run' >>= next') := by
  apply agree_iff_coupled.2
  apply coupled_bind (agree_iff_coupled.1 h.with_store)
  intro t a hlater ha
  exact agree_iff_coupled.1 (hnext t a ha.1 hlater ha.2)

/-- Steps without a result. -/
theorem agree_forM {γ : Type} {f f' : γ → Run PUnit} {items : List γ}
    (h : ∀ item ∈ items, Agree D s anything (f item) (f' item)) :
    Agree D s anything (items.forM f) (items.forM f') :=
  agree_iff_coupled.2 (coupled_forM fun item hitem => agree_iff_coupled.1 (h item hitem))

theorem agree_bindName {scope : ScopeId} {v : Value} (name : String) (hscope : D.scope s scope)
    (hv : D.value s v) : Agree D s anything (bind scope name v) (bind scope name v) :=
  agree_iff_coupled.2 (coupled_bindName (C := D.coupling) hscope hv)

theorem agree_reserve {count : Nat} : Agree D s anything (reserve count) (reserve count) :=
  agree_iff_coupled.2 coupled_reserve

end Run

/-! ## Machines that agree -/

/-- Two machines that do the same as long as they are used under a discipline,
and keep it. -/
structure Machine.Agree (D : Discipline) (m m' : Machine) : Prop where
  depth : m.depth = m'.depth
  rounds : m.rounds = m'.rounds
  eval : ∀ {s scope expression}, D.scope s scope → D.value s expression →
    Run.Agree D s D.value (m.eval scope expression) (m'.eval scope expression)
  invoke : ∀ {s callee arguments}, D.value s callee → D.values s arguments →
    Run.Agree D s D.value (m.invoke callee arguments) (m'.invoke callee arguments)

namespace Machine

open Run

variable {D : Discipline} {s : Store} {m m' : Machine} {scope : ScopeId}

theorem agree_iff_coupled : m.Agree D m' ↔ m.Coupled D.coupling m' := by
  constructor
  · intro h
    exact ⟨h.depth, h.rounds, fun hsource => Run.agree_iff_coupled.1 (h.eval hsource.1 hsource.2),
      fun hcallee harguments => Run.agree_iff_coupled.1 (h.invoke hcallee harguments)⟩
  · intro h
    exact ⟨h.depth, h.rounds,
      fun hscope hexpression => Run.agree_iff_coupled.2 (h.eval ⟨hscope, hexpression⟩),
      fun hcallee harguments => Run.agree_iff_coupled.2 (h.invoke hcallee harguments)⟩

theorem Agree.evalTokens (h : m.Agree D m') {tokens : List Token}
    (htokens : ∀ token ∈ tokens, token.Solid) (hscope : D.scope s scope) :
    Run.Agree D s D.value (m.evalTokens scope tokens) (m'.evalTokens scope tokens) :=
  Run.agree_iff_coupled.2 <| (agree_iff_coupled.1 h).evalTokens fun _ htree =>
    ⟨hscope, D.value_read htokens htree⟩

theorem Agree.evalText (h : m.Agree D m') (source : String) (hscope : D.scope s scope) :
    Run.Agree D s D.value (m.evalText scope source) (m'.evalText scope source) :=
  h.evalTokens (solid_of_mem_tokenize source) hscope

theorem agree_bottom (rounds : Nat) : (bottom rounds).Agree D (bottom rounds) :=
  agree_iff_coupled.2 (coupled_bottom rounds)

theorem agree_above [hosts.Coupled] (h : m.Agree D m') :
    (above hosts m).Agree D (above hosts m') :=
  agree_iff_coupled.2 (coupled_above D.coupling_free (agree_iff_coupled.1 h))

/-- The machine of any depth keeps every discipline. -/
theorem agree_ofDepth (hosts : Hosts) [hosts.Coupled] (rounds depth : Nat) :
    (ofDepth hosts rounds depth).Agree D (ofDepth hosts rounds depth) :=
  agree_iff_coupled.2 (coupled_ofDepth hosts D.coupling_free rounds depth)

end Machine

end TinyLisp
