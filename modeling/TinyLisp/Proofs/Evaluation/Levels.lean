import TinyLisp.Proofs.Evaluation.Forms
import TinyLisp.Proofs.Scopes

/-!
# Levels

One level of evaluation ends alike on two machines when the levels below it do, so
any number of levels does.  A level binds names by itself in two cases: when a form
defines a name, and when a setter of global names is invoked.  Both are asked for
separately, so that a machine which stops there can be coupled too.

There are three groups.

* Calls: a call frame holds nothing but its arguments.
* One level, from the forms and the natives.
* `Machine.coupled_ofDepth`: a machine is coupled with itself under a coupling that
  leaves both free.
-/

namespace TinyLisp

variable {C : Coupling} {s : Store} {hosts : Hosts} {m m' : Machine} {scope : ScopeId}

/-- Names may be bound wherever a form defines them or a setter binds them. -/
structure Coupling.Free (C : Coupling) : Prop where
  define : ∀ {s scope expression name}, C.source s scope expression → expression.Defines name →
    C.binds s scope name
  setGlobal : ∀ {s t callee arguments scope name}, C.stores s t → C.value s callee →
    callee.SetsGlobal scope name arguments → C.binds s (s.rootOf scope) name

namespace Machine

open Run

/-! ## Calls -/

/-- A call frame binds its parameters to arguments of the call. -/
theorem mem_callScope {parameters : List String} {arguments : List Value} {outer : ScopeId}
    {binding : String × Value} (h : binding ∈ (callScope parameters arguments outer).bindings) :
    binding.2 ∈ arguments := by
  rcases Scope.mem_bindAll h with h | ⟨given, hgiven, h⟩
  · cases h
  · rw [h]
    exact (List.of_mem_zip hgiven).2

theorem outer_callScope (parameters : List String) (arguments : List Value) (outer : ScopeId) :
    (callScope parameters arguments outer).outer = some outer :=
  Scope.outer_bindAll _ _

/-! ## One level -/

theorem Coupled.refuse (h : m.Coupled C m') {value : Value} (hvalue : C.value s value) :
    Run.Coupled C s C.value (m.refuse value) (m'.refuse value) := by
  apply coupled_bind (h.text value)
  intro t shown hlater _
  apply coupled_throw
  intro v hv
  cases hv
  exact C.value_later hlater hvalue

theorem Coupled.application (h : m.Coupled C m') {head : Value} {operands : List Value}
    (hparts : C.sources s scope (head :: operands)) :
    Run.Coupled C s C.value (m.application scope head operands)
      (m'.application scope head operands) := by
  obtain ⟨hhead, hoperands⟩ := List.forall_mem_cons.1 hparts
  apply coupled_bind (h.eval hhead)
  intro t callee hlater hcallee
  have hoperands := Coupling.sources_later hlater hoperands
  apply coupled_bind (coupled_mapM fun operand hoperand => h.eval (hoperands operand hoperand))
  intro u arguments hlater' harguments
  have hcallee := C.value_later hlater' hcallee
  exact coupled_ite (h.invoke hcallee harguments) (h.refuse hcallee)

theorem Coupled.evalForm (h : m.Coupled C m') {head : Value} {operands : List Value}
    (hsource : C.source s scope (.form (head :: operands)))
    (hdefines : ∀ name, (Value.form (head :: operands)).Defines name → C.binds s scope name) :
    Run.Coupled C s C.value (m.evalForm scope head operands) (m'.evalForm scope head operands) := by
  unfold Machine.evalForm
  split
  · rename_i keyword hkeyword
    exact SpecialForm.coupled_run h hkeyword hsource hdefines
  · rename_i hkeyword
    exact h.application fun part hpart => C.source_part hsource (.application hkeyword hpart)

theorem Coupled.evalStep (h : m.Coupled C m') {expression : Value}
    (hsource : C.source s scope expression)
    (hdefines : ∀ name, expression.Defines name → C.binds s scope name) :
    Run.Coupled C s C.value (m.evalStep scope expression) (m'.evalStep scope expression) := by
  unfold Machine.evalStep
  split
  · exact coupled_lookup hsource
  · exact coupled_value (C.value_plain rfl)
  · exact h.evalForm hsource hdefines
  · exact coupled_value (C.value_embedded.1 (C.source_value hsource))
  · exact coupled_value (C.source_value hsource)

theorem Coupled.invokeStep [hosts.Coupled] (h : m.Coupled C m') {callee : Value}
    {arguments : List Value}
    (hcallee : C.value s callee) (harguments : C.values s arguments)
    (hbinds : ∀ scope name, callee.SetsGlobal scope name arguments →
      ∀ t u, C.stores t u → C.later s t → C.binds t (t.rootOf scope) name) :
    Run.Coupled C s C.value (m.invokeStep hosts callee arguments)
      (m'.invokeStep hosts callee arguments) := by
  unfold Machine.invokeStep
  split
  · apply coupled_bind (coupled_callFrame hcallee harguments)
    intro t frame _ hbody
    exact h.evalBody hbody
  · exact coupled_inNative (Operation.coupled_native h hcallee harguments hbinds)
  · exact coupled_inNative (coupled_callbackNative h (C.value_callback.1 hcallee))
  · exact h.refuse hcallee

theorem coupled_bottom (rounds : Nat) : (bottom rounds).Coupled C (bottom rounds) where
  depth := rfl
  rounds := rfl
  eval _ := coupled_throw fun v hv => by cases hv
  invoke _ _ := coupled_throw fun v hv => by cases hv

theorem coupled_above [hosts.Coupled] (hfree : C.Free) (h : m.Coupled C m') :
    (above hosts m).Coupled C (above hosts m') where
  depth := congrArg (· + 1) h.depth
  rounds := h.rounds
  eval hsource := h.evalStep hsource fun _ => hfree.define hsource
  invoke hcallee harguments :=
    h.invokeStep hcallee harguments fun _ _ hsets _ _ hstores hlater =>
      hfree.setGlobal hstores (C.value_later hlater hcallee) hsets

/-- The machine of any depth ends alike from stores that are coupled. -/
theorem coupled_ofDepth (hosts : Hosts) [hosts.Coupled] (hfree : C.Free) (rounds depth : Nat) :
    (ofDepth hosts rounds depth).Coupled C (ofDepth hosts rounds depth) := by
  induction depth with
  | zero => exact coupled_bottom rounds
  | succ depth ih => exact coupled_above hfree ih

end Machine

end TinyLisp
