import TinyLisp.Proofs.Simulation.Natives

/-!
# Evaluations that follow each other

Over machines that follow each other every special form follows itself, and so
do the machines one level further up.

There are four groups.

* Operands: parameter lists, closures and quoted syntax.
* One lemma for each special form.
* `Machine.follows_above`: one level, from the forms and the natives.
* `Machine.follows_ofDepth`: machines with limits of their own.
-/

namespace TinyLisp

variable {S : Simulation} {hosts : Hosts} {m m' : Machine}

namespace SpecialForm

open Run

/-! ## Operands -/

theorem follows_malformed {α : Type} {f : α → α} {keyword : Keyword} {problem : ShapeProblem} :
    Run.Follows S f (malformed keyword problem) (malformed keyword problem) :=
  follows_fail rfl

/-- A shape problem that shows an operand. -/
theorem follows_shown {α : Type} {f : α → α} (h : m.Follows S m') (keyword : Keyword)
    (problem : String → ShapeProblem) (operand : Value) :
    Run.Follows S f (do malformed keyword (problem (← m.inspected operand)))
      (do malformed keyword (problem (← m'.inspected (operand.rename S.new)))) :=
  follows_bind (h.inspected operand) fun _ => follows_malformed

theorem follows_parameterNames (h : m.Follows S m') (keyword : Keyword) (parameters : List Value) :
    Run.Follows S id (parameterNames m keyword parameters)
      (parameterNames m' keyword (parameters.map (Value.rename S.new))) := by
  induction parameters with
  | nil => exact follows_pure rfl
  | cons parameter rest ih =>
    have hshown : Run.Follows S id
        (do malformed keyword (.badParameter (← m.inspected parameter)) : Run (List String))
        (do malformed keyword (.badParameter (← m'.inspected (parameter.rename S.new)))) :=
      follows_shown h keyword _ parameter
    cases parameter with
    | identifier name => exact follows_bind ih fun _ => follows_pure rfl
    | nil | undefined | bool | int | float | string | symbol | form | embedded | pair
    | procedure | native | callback => exact hshown

theorem follows_closure (h : m.Follows S m') (keyword : Keyword) (parameters body : List Value)
    (scope : ScopeId) :
    Run.Follows S (Value.rename S.new) (closure m keyword parameters body scope)
      (closure m' keyword (parameters.map (Value.rename S.new))
        (body.map (Value.rename S.new)) scope) := by
  apply follows_bind (follows_parameterNames h keyword parameters)
  intro names
  apply follows_new
  intro i
  rw [Value.rename, Value.renameAll_eq_map]
  rfl

theorem follows_quoted {limit limit' : Nat} (h : S.Further .tooDeep limit limit')
    (expression : Value) :
    Run.Follows S (Value.rename S.new) (quoted limit expression)
      (quoted limit' (expression.rename S.new)) := by
  induction h generalizing expression with
  | zero h => exact follows_limit h rfl (by rintro rfl; rfl)
  | succ _ ih =>
    cases expression with
    | form items =>
      rw [Value.rename, Value.renameAll_eq_map]
      exact follows_bind (follows_mapM fun item _ => ih item) fun items => follows_newList items
    | identifier name => exact follows_value
    | embedded identity value => exact follows_value
    | nil | undefined | bool | int | float | string | symbol | pair | procedure | native
    | callback => exact follows_value

/-! ## The forms -/

/-- A test, and what is done on either outcome. -/
theorem follows_branch {α : Type} {f : α → α} (h : m.Follows S m') (scope : ScopeId)
    (test : Value) {run run' other other' : Run α} (hrun : Run.Follows S f run run')
    (hother : Run.Follows S f other other') :
    Run.Follows S f (do if (← m.eval scope test).isTruthy then run else other)
      (do if (← m'.eval scope (test.rename S.new)).isTruthy then run' else other') := by
  apply follows_bind (h.eval scope test)
  intro result
  exact follows_ite (by rw [Value.isTruthy_rename]) hrun hother

theorem follows_conditional (h : m.Follows S m') (scope : ScopeId) (operands : List Value) :
    Run.Follows S (Value.rename S.new) (conditional m scope operands)
      (conditional m' scope (operands.map (Value.rename S.new))) := by
  rcases operands with _ | ⟨test, _ | ⟨consequent, _ | ⟨alternative, _ | ⟨other, rest⟩⟩⟩⟩
  · exact follows_malformed
  · exact follows_malformed
  · exact follows_branch h scope test (h.eval scope consequent) (follows_plain rfl)
  · exact follows_branch h scope test (h.eval scope consequent) (h.eval scope alternative)
  · exact follows_malformed

/-- A value is computed and then put under a name. -/
theorem follows_bindResult {run run' : Run Value} (scope : ScopeId) (name : String)
    (h : Run.Follows S (Value.rename S.new) run run') :
    Run.Follows S (Value.rename S.new)
      (do let value ← run; Run.bind scope name value; pure .undefined)
      (do let value ← run'; Run.bind scope name value; pure .undefined) := by
  apply follows_bind h
  intro value
  exact follows_bind (follows_bindName scope name value) fun _ => follows_plain rfl

theorem follows_definition (h : m.Follows S m') (scope : ScopeId) (operands : List Value) :
    Run.Follows S (Value.rename S.new) (definition m scope operands)
      (definition m' scope (operands.map (Value.rename S.new))) := by
  rcases operands with _ | ⟨target, rest⟩
  · exact follows_malformed
  · have hshown : Run.Follows S (Value.rename S.new)
        (do malformed .definition (.badTarget (← m.inspected target)) : Run Value)
        (do malformed .definition (.badTarget (← m'.inspected (target.rename S.new)))) :=
      follows_shown h .definition _ target
    cases target with
    | form items =>
      rcases items with _ | ⟨first, parameters⟩
      · exact follows_malformed
      · cases first with
        | identifier name =>
          rw [List.map_cons, Value.rename, Value.renameAll_eq_map]
          exact follows_bindResult scope name (follows_closure h .definition parameters rest scope)
        | nil | undefined | bool | int | float | string | symbol | form | embedded | pair
        | procedure | native | callback => exact follows_malformed
    | identifier name =>
      rcases rest with _ | ⟨expression, _ | ⟨other, rest⟩⟩
      · exact follows_malformed
      · exact follows_bindResult scope name (h.eval scope expression)
      · exact follows_malformed
    | nil | undefined | bool | int | float | string | symbol | embedded | pair | procedure
    | native | callback => exact hshown

theorem follows_bindInTurn (h : m.Follows S m') (scope : ScopeId) (bindings : List Value) :
    Run.Follows S id (bindInTurn m scope bindings)
      (bindInTurn m' scope (bindings.map (Value.rename S.new))) := by
  induction bindings with
  | nil => exact follows_pure rfl
  | cons binding rest ih =>
    have hshown : Run.Follows S id
        (do malformed .binding (.badBinding (← m.inspected binding)) : Run Unit)
        (do malformed .binding (.badBinding (← m'.inspected (binding.rename S.new)))) :=
      follows_shown h .binding _ binding
    cases binding with
    | form items =>
      rcases items with _ | ⟨first, _ | ⟨expression, _ | ⟨other, others⟩⟩⟩
      · exact hshown
      · cases first <;> exact hshown
      · cases first with
        | identifier name =>
          apply follows_bind (h.eval scope expression)
          intro value
          exact follows_bind (follows_bindName scope name value) fun _ => ih
        | nil | undefined | bool | int | float | string | symbol | form | embedded | pair
        | procedure | native | callback => exact hshown
      · cases first <;> exact hshown
    | nil | undefined | bool | int | float | string | symbol | identifier | embedded | pair
    | procedure | native | callback => exact hshown

theorem follows_binding (h : m.Follows S m') (scope : ScopeId) (operands : List Value) :
    Run.Follows S (Value.rename S.new) (binding m scope operands)
      (binding m' scope (operands.map (Value.rename S.new))) := by
  rcases operands with _ | ⟨target, body⟩
  · exact follows_malformed
  · cases target with
    | form bindings =>
      rw [List.map_cons, Value.rename, Value.renameAll_eq_map]
      apply follows_bind (follows_newScope (.empty (some scope)))
      intro inner
      apply follows_bind (follows_bindInTurn h inner bindings)
      exact fun _ => h.evalBody inner body
    | nil | undefined | bool | int | float | string | symbol | identifier | embedded | pair
    | procedure | native | callback => exact follows_malformed

theorem follows_abstraction (h : m.Follows S m') (scope : ScopeId) (operands : List Value) :
    Run.Follows S (Value.rename S.new) (abstraction m scope operands)
      (abstraction m' scope (operands.map (Value.rename S.new))) := by
  rcases operands with _ | ⟨target, body⟩
  · exact follows_malformed
  · have hshown : Run.Follows S (Value.rename S.new)
        (do malformed .abstraction (.badParameters (← m.inspected target)) : Run Value)
        (do malformed .abstraction (.badParameters (← m'.inspected (target.rename S.new)))) :=
      follows_shown h .abstraction _ target
    cases target with
    | form parameters =>
      rw [List.map_cons, Value.rename, Value.renameAll_eq_map]
      exact follows_closure h .abstraction parameters body scope
    | nil | undefined | bool | int | float | string | symbol | identifier | embedded | pair
    | procedure | native | callback => exact hshown

theorem follows_guard (h : m.Follows S m') (scope : ScopeId) (operands : List Value) :
    Run.Follows S (Value.rename S.new) (guard m scope operands)
      (guard m' scope (operands.map (Value.rename S.new))) := by
  rcases operands with _ | ⟨test, body⟩
  · exact follows_malformed
  · exact follows_branch h scope test (h.evalBody scope body) (follows_plain rfl)

/-- One round follows itself, so any number of rounds does. -/
theorem follows_repeatWhile (h : m.Follows S m') (scope : ScopeId) (test : Value)
    (body : List Value) {rounds rounds' : Nat} (hrounds : S.Further .tooLong rounds rounds') :
    Run.Follows S (Value.rename S.new) (repeatWhile m scope test body rounds)
      (repeatWhile m' scope (test.rename S.new) (body.map (Value.rename S.new)) rounds') := by
  induction hrounds with
  | zero h => exact follows_limit h rfl (by rintro rfl; rfl)
  | succ _ ih =>
    apply follows_branch h scope test
    · exact follows_bind (h.evalBody scope body) fun _ => ih
    · exact follows_plain rfl

theorem follows_loop (h : m.Follows S m') (scope : ScopeId) (operands : List Value) :
    Run.Follows S (Value.rename S.new) (loop m scope operands)
      (loop m' scope (operands.map (Value.rename S.new))) := by
  rcases operands with _ | ⟨test, body⟩
  · exact follows_malformed
  · exact follows_repeatWhile h scope test body h.rounds

theorem follows_assignment (h : m.Follows S m') (scope : ScopeId) (operands : List Value) :
    Run.Follows S (Value.rename S.new) (assignment m scope operands)
      (assignment m' scope (operands.map (Value.rename S.new))) := by
  rcases operands with _ | ⟨target, _ | ⟨expression, _ | ⟨other, rest⟩⟩⟩
  · exact follows_malformed
  · cases target <;> exact follows_malformed
  · have hshown : Run.Follows S (Value.rename S.new)
        (do malformed .assignment (.badVariable (← m.inspected target)) : Run Value)
        (do malformed .assignment (.badVariable (← m'.inspected (target.rename S.new)))) :=
      follows_shown h .assignment _ target
    cases target with
    | identifier name =>
      apply follows_bind (h.eval scope expression)
      intro value
      exact follows_bind (follows_assign scope name value) fun _ => follows_plain rfl
    | nil | undefined | bool | int | float | string | symbol | form | embedded | pair
    | procedure | native | callback => exact hshown
  · cases target <;> exact follows_malformed

theorem follows_quotation (h : m.Follows S m') (operands : List Value) :
    Run.Follows S (Value.rename S.new) (quotation m operands)
      (quotation m' (operands.map (Value.rename S.new))) := by
  rcases operands with _ | ⟨expression, _ | ⟨other, rest⟩⟩
  · exact follows_malformed
  · exact follows_quoted h.depth expression
  · exact follows_malformed

theorem follows_run (h : m.Follows S m') (scope : ScopeId) (keyword : Keyword)
    (operands : List Value) :
    Run.Follows S (Value.rename S.new) (run m scope keyword operands)
      (run m' scope keyword (operands.map (Value.rename S.new))) := by
  cases keyword with
  | conditional => exact follows_conditional h scope operands
  | definition => exact follows_definition h scope operands
  | binding => exact follows_binding h scope operands
  | abstraction => exact follows_abstraction h scope operands
  | sequence => exact h.evalBody scope operands
  | guard => exact follows_guard h scope operands
  | loop => exact follows_loop h scope operands
  | assignment => exact follows_assignment h scope operands
  | quotation => exact follows_quotation h operands

end SpecialForm

namespace Machine

open Run

/-! ## One level -/

theorem Follows.refuse (h : m.Follows S m') (value : Value) :
    Run.Follows S (Value.rename S.new) (m.refuse value) (m'.refuse (value.rename S.new)) :=
  follows_bind (h.text value) fun shown => follows_throw (.error (.notCallable ⟨value, shown⟩))

theorem Follows.application (h : m.Follows S m') (scope : ScopeId) (head : Value)
    (operands : List Value) :
    Run.Follows S (Value.rename S.new) (m.application scope head operands)
      (m'.application scope (head.rename S.new) (operands.map (Value.rename S.new))) := by
  apply follows_bind (h.eval scope head)
  intro callee
  apply follows_bind (follows_mapM fun operand _ => h.eval scope operand)
  intro arguments
  apply follows_ite (by rw [Value.isCallable_rename])
  · exact h.invoke callee arguments
  · exact h.refuse callee

@[simp] theorem keyword?_rename {new : Identity → Identity} (head : Value) :
    keyword? (head.rename new) = keyword? head := by
  cases head <;> rfl

theorem Follows.evalForm (h : m.Follows S m') (scope : ScopeId) (head : Value)
    (operands : List Value) :
    Run.Follows S (Value.rename S.new) (m.evalForm scope head operands)
      (m'.evalForm scope (head.rename S.new) (operands.map (Value.rename S.new))) := by
  unfold Machine.evalForm
  rw [keyword?_rename]
  cases keyword? head with
  | some keyword => exact SpecialForm.follows_run h scope keyword operands
  | none => exact h.application scope head operands

theorem Follows.evalStep (h : m.Follows S m') (scope : ScopeId) (expression : Value) :
    Run.Follows S (Value.rename S.new) (m.evalStep scope expression)
      (m'.evalStep scope (expression.rename S.new)) := by
  cases expression with
  | identifier name => exact follows_lookup scope name
  | form items =>
    rcases items with _ | ⟨head, operands⟩
    · exact follows_plain rfl
    · rw [Value.rename, Value.renameAll_eq_map]
      exact h.evalForm scope head operands
  | embedded identity value => exact follows_value
  | nil | undefined | bool | int | float | string | symbol | pair | procedure | native
  | callback => exact follows_value

theorem Follows.invokeStep [hosts.Uniform] (h : m.Follows S m') (callee : Value)
    (arguments : List Value) :
    Run.Follows S (Value.rename S.new) (m.invokeStep hosts callee arguments)
      (m'.invokeStep hosts (callee.rename S.new) (arguments.map (Value.rename S.new))) := by
  have hrefuse := h.refuse callee
  cases callee with
  | procedure identity parameters body outer =>
    have hframe := follows_newScope (S := S) (callScope parameters arguments outer)
    rw [rename_callScope] at hframe
    rw [Value.rename, Value.renameAll_eq_map]
    exact follows_bind hframe fun scope => h.evalBody scope body
  | native identity name operation =>
    exact follows_inNative (Operation.follows_native h operation arguments)
  | callback identity target => exact follows_inNative (follows_callbackNative h target arguments)
  | nil | undefined | bool | int | float | string | symbol | identifier | form | embedded
  | pair => exact hrefuse

/-- One more level on top of machines that follow each other. -/
theorem follows_above [hosts.Uniform] (h : m.Follows S m') :
    (above hosts m).Follows S (above hosts m') where
  depth := .succ h.depth
  rounds := h.rounds
  eval scope expression := h.evalStep scope expression
  invoke callee arguments := h.invokeStep callee arguments

/-- A machine without levels is followed where running out of depth is excused. -/
theorem follows_bottom {rounds depth' : Nat} {m' : Machine}
    (hrounds : S.Further .tooLong rounds m'.rounds) (h : depth' = 0 ∨ S.excuses .tooDeep)
    (hbottom : depth' = 0 → m' = bottom m'.rounds) : (bottom rounds).Follows S m' where
  depth := .zero (h.imp_left fun h => by rw [hbottom h]; rfl)
  rounds := hrounds
  eval _ _ := follows_limit h rfl fun h => by rw [hbottom h]; rfl
  invoke _ _ := follows_limit h rfl fun h => by rw [hbottom h]; rfl

/-- A machine whose limits are at least as wide follows. -/
theorem follows_ofDepth (hosts : Hosts) [hosts.Uniform] {rounds rounds' depth depth' : Nat}
    (hrounds : S.Further .tooLong rounds rounds') (hdepth : S.Further .tooDeep depth depth') :
    (ofDepth hosts rounds depth).Follows S (ofDepth hosts rounds' depth') := by
  induction hdepth with
  | @zero depth' h =>
    apply follows_bottom _ h
    · rintro rfl
      rfl
    · rw [rounds_ofDepth]
      exact hrounds
  | succ _ ih => exact follows_above ih

end Machine

end TinyLisp
