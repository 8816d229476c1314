import TinyLisp.Proofs.Evaluation.Natives

/-!
# Special forms

Two machines that are coupled make every special form do the same.  What a form may
evaluate, close over and bind is taken from the form as a whole.  The form that takes
most care is the one with bindings: its values are evaluated in a scope that is only
half built.

There are three groups.

* Operands: parameter lists, closures and quoted syntax.
* One lemma for each special form.
* `SpecialForm.coupled_run`: all of them.
-/

namespace TinyLisp.SpecialForm

open Run
open Machine (keyword?)

variable {C : Coupling} {s : Store} {m m' : Machine} {scope : ScopeId}
  {head : Value} {operands body : List Value}

/-! ## Operands -/

theorem coupled_malformed {α : Type} {P : Store → α → Prop} {keyword : Keyword}
    {problem : ShapeProblem} :
    Run.Coupled C s P (malformed keyword problem) (malformed keyword problem) :=
  coupled_fail rfl

/-- A shape problem that shows an operand. -/
theorem coupled_shown {α : Type} {P : Store → α → Prop} (h : m.Coupled C m') (keyword : Keyword)
    (problem : String → ShapeProblem) (operand : Value) :
    Run.Coupled C s P (m.inspected operand >>= fun shown => malformed keyword (problem shown))
      (m'.inspected operand >>= fun shown => malformed keyword (problem shown)) :=
  coupled_bind (h.inspected operand) fun _ _ _ _ => coupled_malformed

theorem coupled_parameterNames (h : m.Coupled C m') (keyword : Keyword) (parameters : List Value) :
    Run.Coupled C s anything (parameterNames m keyword parameters)
      (parameterNames m' keyword parameters) := by
  induction parameters generalizing s with
  | nil => exact coupled_pure fun _ _ => trivial
  | cons parameter rest ih =>
    unfold parameterNames
    split
    · exact coupled_pure fun _ _ => trivial
    · rename_i hcons
      cases hcons
      apply coupled_bind ih
      exact fun _ _ _ _ => coupled_pure fun _ _ => trivial
    · exact coupled_shown h keyword _ _

/-- A procedure may be used whose body a form closes over. -/
theorem coupled_closure (h : m.Coupled C m') (keyword : Keyword) (parameters : List Value)
    {expression : Value} (hsource : C.source s scope expression)
    (hcloses : expression.Closes body) :
    Run.Coupled C s C.value (closure m keyword parameters body scope)
      (closure m' keyword parameters body scope) := by
  apply coupled_bind (coupled_parameterNames h keyword parameters)
  intro t names hlater _
  apply coupled_bind coupled_reserve
  intro u identity hlater' _
  have hsource := C.source_later (C.later_trans hlater hlater') hsource
  exact coupled_value (C.value_closure hsource hcloses)

theorem coupled_quoted (limit : Nat) {expression : Value} (hexpression : C.value s expression) :
    Run.Coupled C s C.value (quoted limit expression) (quoted limit expression) := by
  induction limit generalizing s expression with
  | zero => exact coupled_throw fun v hv => by cases hv
  | succ limit ih =>
    unfold quoted
    split
    · exact coupled_value (C.value_symbol hexpression)
    · apply coupled_bind (coupled_mapM fun item hitem => ih (C.value_form.1 hexpression item hitem))
      exact fun _ _ _ hitems => coupled_newList hitems
    · exact coupled_value (C.value_embedded.1 hexpression)
    · exact coupled_value hexpression

/-! ## The forms -/

/-- A test, and what is done on either outcome. -/
theorem coupled_branch {α : Type} {P : Store → α → Prop} (h : m.Coupled C m') {test : Value}
    (htest : C.source s scope test) {run run' other other' : Run α}
    (hrun : ∀ {t}, C.later s t → Run.Coupled C t P run run')
    (hother : ∀ {t}, C.later s t → Run.Coupled C t P other other') :
    Run.Coupled C s P (do if (← m.eval scope test).isTruthy then run else other)
      (do if (← m'.eval scope test).isTruthy then run' else other') := by
  apply coupled_bind (h.eval htest)
  intro t result hlater _
  exact coupled_ite (hrun hlater) (hother hlater)

/-- Evaluation at a later time. -/
theorem coupled_evalLater (h : m.Coupled C m') {expression : Value}
    (hsource : C.source s scope expression) {t : Store} (hlater : C.later s t) :
    Run.Coupled C t C.value (m.eval scope expression) (m'.eval scope expression) :=
  h.eval (C.source_later hlater hsource)

/-- A body at a later time. -/
theorem coupled_bodyLater (h : m.Coupled C m') (hbody : C.sources s scope body) {t : Store}
    (hlater : C.later s t) :
    Run.Coupled C t C.value (m.evalBody scope body) (m'.evalBody scope body) :=
  h.evalBody (Coupling.sources_later hlater hbody)

theorem coupled_conditional (h : m.Coupled C m') (hoperands : C.sources s scope operands) :
    Run.Coupled C s C.value (conditional m scope operands) (conditional m' scope operands) := by
  unfold conditional
  split
  · rename_i test consequent
    exact coupled_branch h (hoperands test (by simp))
      (coupled_evalLater h (hoperands consequent (by simp)))
      fun _ => coupled_value (C.value_plain rfl)
  · rename_i test consequent alternative
    exact coupled_branch h (hoperands test (by simp))
      (coupled_evalLater h (hoperands consequent (by simp)))
      (coupled_evalLater h (hoperands alternative (by simp)))
  · exact coupled_malformed

/-- A value is computed and then put under a name. -/
theorem coupled_bindResult {run run' : Run Value} {name : String} (hbinds : C.binds s scope name)
    (hrun : Run.Coupled C s C.value run run') :
    Run.Coupled C s C.value (do let value ← run; Run.bind scope name value; pure .undefined)
      (do let value ← run'; Run.bind scope name value; pure .undefined) := by
  apply coupled_bind hrun
  intro t value hlater hvalue
  apply coupled_bind (coupled_bindName (C.binds_later hlater hbinds) hvalue)
  exact fun _ _ _ _ => coupled_value (C.value_plain rfl)

theorem coupled_definition (h : m.Coupled C m') (hkeyword : keyword? head = some .definition)
    (hsource : C.source s scope (.form (head :: operands)))
    (hdefines : ∀ name, (Value.form (head :: operands)).Defines name → C.binds s scope name) :
    Run.Coupled C s C.value (definition m scope operands) (definition m' scope operands) := by
  unfold definition
  split
  · exact coupled_malformed
  · exact coupled_bindResult (hdefines _ (.procedure hkeyword))
      (coupled_closure h .definition _ hsource (.definition hkeyword))
  · exact coupled_malformed
  · exact coupled_bindResult (hdefines _ (.value hkeyword))
      (h.eval (C.source_part hsource (.definition hkeyword)))
  · exact coupled_malformed
  · exact coupled_shown h .definition _ _

/-- Each value is evaluated in the new scope with the names bound before it. -/
theorem coupled_bindInTurn (h : m.Coupled C m') {bindings : List Value}
    (hbindings : ∀ name expression, Value.form [.identifier name, expression] ∈ bindings →
      C.source s scope expression)
    (hbinds : ∀ name, C.binds s scope name) :
    Run.Coupled C s anything (bindInTurn m scope bindings) (bindInTurn m' scope bindings) := by
  induction bindings generalizing s with
  | nil => exact coupled_pure fun _ _ => trivial
  | cons binding rest ih =>
    unfold bindInTurn
    split
    · exact coupled_pure fun _ _ => trivial
    · rename_i name expression rest' hcons
      cases hcons
      apply coupled_bind (h.eval (hbindings name expression (by simp)))
      intro t value hlater hvalue
      apply coupled_bind (coupled_bindName (C.binds_later hlater (hbinds name)) hvalue)
      intro u _ hlater' _
      have hlater := C.later_trans hlater hlater'
      apply ih
      · intro name' expression' hrest
        exact C.source_later hlater (hbindings name' expression' (by simp [hrest]))
      · exact fun name' => C.binds_later hlater (hbinds name')
    · exact coupled_shown h .binding _ _

theorem coupled_binding (h : m.Coupled C m') (hkeyword : keyword? head = some .binding)
    (hsource : C.source s scope (.form (head :: operands))) :
    Run.Coupled C s C.value (binding m scope operands) (binding m' scope operands) := by
  unfold binding
  split
  · rename_i bindings body
    apply coupled_bind (coupled_enter hsource)
    intro t inner _ hinner
    obtain ⟨hparts, hbinds⟩ := hinner
    have hvalues : ∀ name expression, Value.form [.identifier name, expression] ∈ bindings →
        C.source t inner expression :=
      fun name expression hmem => hparts expression (.value hkeyword hmem)
    apply coupled_bind (coupled_bindInTurn h hvalues hbinds)
    intro u _ hlater _
    apply h.evalBody
    intro part hpart
    exact C.source_later hlater (hparts part (.body hkeyword hpart))
  · exact coupled_malformed

theorem coupled_abstraction (h : m.Coupled C m') (hkeyword : keyword? head = some .abstraction)
    (hsource : C.source s scope (.form (head :: operands))) :
    Run.Coupled C s C.value (abstraction m scope operands) (abstraction m' scope operands) := by
  unfold abstraction
  split
  · exact coupled_malformed
  · exact coupled_closure h .abstraction _ hsource (.abstraction hkeyword)
  · exact coupled_shown h .abstraction _ _

theorem coupled_guard (h : m.Coupled C m') (hoperands : C.sources s scope operands) :
    Run.Coupled C s C.value (guard m scope operands) (guard m' scope operands) := by
  unfold guard
  split
  · exact coupled_malformed
  · obtain ⟨htest, hbody⟩ := List.forall_mem_cons.1 hoperands
    exact coupled_branch h htest (coupled_bodyLater h hbody)
      fun _ => coupled_value (C.value_plain rfl)

/-- One round ends alike, so any number of rounds does. -/
theorem coupled_repeatWhile (h : m.Coupled C m') {test : Value} (htest : C.source s scope test)
    (hbody : C.sources s scope body) (rounds : Nat) :
    Run.Coupled C s C.value (repeatWhile m scope test body rounds)
      (repeatWhile m' scope test body rounds) := by
  induction rounds generalizing s with
  | zero => exact coupled_throw fun v hv => by cases hv
  | succ rounds ih =>
    unfold repeatWhile
    apply coupled_branch h htest
    · intro t hlater
      apply coupled_bind (coupled_bodyLater h hbody hlater)
      intro u _ hlater' _
      have hlater := C.later_trans hlater hlater'
      exact ih (C.source_later hlater htest) (Coupling.sources_later hlater hbody)
    · exact fun _ => coupled_value (C.value_plain rfl)

theorem coupled_loop (h : m.Coupled C m') (hoperands : C.sources s scope operands) :
    Run.Coupled C s C.value (loop m scope operands) (loop m' scope operands) := by
  unfold loop
  rw [h.rounds]
  split
  · exact coupled_malformed
  · obtain ⟨htest, hbody⟩ := List.forall_mem_cons.1 hoperands
    exact coupled_repeatWhile h htest hbody m'.rounds

theorem coupled_assignment (h : m.Coupled C m') (hkeyword : keyword? head = some .assignment)
    (hsource : C.source s scope (.form (head :: operands))) :
    Run.Coupled C s C.value (assignment m scope operands) (assignment m' scope operands) := by
  unfold assignment
  split
  · apply coupled_bind (h.eval (C.source_part hsource (.assignment hkeyword)))
    intro t value hlater hvalue
    apply coupled_bind (coupled_assign (C.source_later hlater hsource) (.form hkeyword) hvalue)
    exact fun _ _ _ _ => coupled_value (C.value_plain rfl)
  · exact coupled_shown h .assignment _ _
  · exact coupled_malformed

theorem coupled_quotation (h : m.Coupled C m') (hoperands : C.values s operands) :
    Run.Coupled C s C.value (quotation m operands) (quotation m' operands) := by
  unfold quotation
  rw [h.depth]
  split
  · exact coupled_quoted m'.depth (hoperands _ (by simp))
  · exact coupled_malformed

theorem coupled_run (h : m.Coupled C m') {keyword : Keyword}
    (hkeyword : keyword? head = some keyword)
    (hsource : C.source s scope (.form (head :: operands)))
    (hdefines : ∀ name, (Value.form (head :: operands)).Defines name → C.binds s scope name) :
    Run.Coupled C s C.value (run m scope keyword operands) (run m' scope keyword operands) := by
  have hoperands (hmem : keyword ∈ [.conditional, .sequence, .guard, .loop]) :
      C.sources s scope operands :=
    fun part hpart => C.source_part hsource (.operand hkeyword hmem hpart)
  cases keyword with
  | conditional => exact coupled_conditional h (hoperands (by simp))
  | definition => exact coupled_definition h hkeyword hsource hdefines
  | binding => exact coupled_binding h hkeyword hsource
  | abstraction => exact coupled_abstraction h hkeyword hsource
  | sequence => exact h.evalBody (hoperands (by simp))
  | guard => exact coupled_guard h (hoperands (by simp))
  | loop => exact coupled_loop h (hoperands (by simp))
  | assignment => exact coupled_assignment h hkeyword hsource
  | quotation =>
    exact coupled_quotation h (Coupling.values_cons.1 (C.value_form.1 (C.source_value hsource))).2

end TinyLisp.SpecialForm
