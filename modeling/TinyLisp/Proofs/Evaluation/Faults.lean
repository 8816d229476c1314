import TinyLisp.Evaluator
import TinyLisp.Proofs.Writing
import TinyLisp.SourceText

/-!
# Faults outside natives

A fault arises in a native and becomes an error of the language there.  One fault
can arise outside all natives: a value that is to be shown in a message holds an
integer that is too long to be written.

There are five groups.

* `Attempt.Limited`: attempts that fail only at a limit, as the two printers do.
* `Run.Contained`: runs without any other fault, with one rule for each way of
  putting runs together.  A native contains everything that happens in it.
* One lemma for each special form, and for the other steps of a level.
* `Machine.contained_ofDepth`: the machine of any depth contains its faults.
* `Machine.contained_evalText`: so does the evaluation of a source, which may break
  off where it cannot be read.
-/

namespace TinyLisp

variable {hosts : Hosts}

/-! ## Attempts -/

namespace Attempt

/-- The attempt fails only at a limit: of the depth, or of the length of integers. -/
def Limited {α : Type} (attempt : Attempt α) : Prop :=
  ∀ stop, attempt = .error stop → stop = .tooDeep ∨ stop = .fault .longInteger

theorem limited_map {α β : Type} {f : α → β} {attempt : Attempt α} (h : attempt.Limited) :
    Limited (attempt.map f) :=
  StopsFor.map h f

end Attempt

namespace Value

open Attempt

theorem limited_inspect (limit : Nat) (value : Value) : (value.inspect limit).Limited :=
  stopsFor_inspect (.inr rfl) (.inl (.inl rfl))

theorem limited_write (limit : Nat) (value : Value) : (value.write limit).Limited :=
  stopsFor_write (.inr rfl) (.inl (.inl rfl))

end Value

/-! ## Runs -/

namespace Run

/-- The only fault in which the run can end is that of a long integer. -/
def Contained {α : Type} (run : Run α) : Prop :=
  ∀ s fault t, run s = .error (.fault fault) t → fault = .longInteger

variable {α β : Type}

theorem contained_pure (a : α) : (pure a : Run α).Contained := by
  intro s fault t h
  cases h

theorem contained_throw {stop : Stop} (h : ∀ fault, stop ≠ .fault fault) :
    (throw stop : Run α).Contained := by
  intro s fault t hstop
  cases hstop
  exact absurd rfl (h fault)

theorem contained_throw_tooDeep : (throw .tooDeep : Run α).Contained :=
  contained_throw fun fault h => by cases h

theorem contained_fail (error : LispError) : (fail error : Run α).Contained :=
  contained_throw fun fault h => by cases h

/-- A change of the store never fails. -/
theorem contained_modifyGet (change : Store → α × Store) :
    (modifyGet change : Run α).Contained := by
  intro s fault t h
  cases h

theorem contained_get : (get : Run Store).Contained :=
  contained_modifyGet fun store => (store, store)

theorem contained_bind {run : Run α} {next : α → Run β} (h : run.Contained)
    (hnext : ∀ a, (next a).Contained) : (run >>= next).Contained := by
  intro s fault u hfault
  cases hrun : run s with
  | ok a t =>
    rw [bind_of_ok hrun] at hfault
    exact hnext a t fault u hfault
  | error stop t =>
    rw [bind_of_error hrun] at hfault
    cases hfault
    exact h s fault u hrun

theorem contained_ite {c : Prop} [Decidable c] {run other : Run α} (h : run.Contained)
    (hother : other.Contained) : (if c then run else other).Contained := by
  by_cases hc : c
  · rw [if_pos hc]
    exact h
  · rw [if_neg hc]
    exact hother

theorem contained_mapM {f : α → Run β} {items : List α} (h : ∀ item ∈ items, (f item).Contained) :
    Contained (items.mapM f) := by
  induction items with
  | nil => exact contained_pure []
  | cons item items ih =>
    rw [List.mapM_cons]
    apply contained_bind (h item (by simp))
    intro result
    apply contained_bind (ih fun item hitem => h item (by simp [hitem]))
    exact fun results => contained_pure (result :: results)

theorem contained_lastOf {before : Value} {step : α → Run Value} {items : List α}
    (h : ∀ item, (step item).Contained) : (lastOf before step items).Contained := by
  induction items generalizing before with
  | nil => exact contained_pure before
  | cons item items ih => exact contained_bind (h item) fun _ => ih

theorem contained_ofAttempt {attempt : Attempt α} (h : attempt.Limited) :
    (ofAttempt attempt).Contained := by
  intro s fault t hfault
  cases attempt with
  | ok a => cases hfault
  | error stop =>
    cases hfault
    rcases h (.fault fault) rfl with hstop | hstop
    · cases hstop
    · cases hstop
      rfl

/-- Nothing gets out of a native as a fault. -/
theorem contained_inNative (name : String) (run : Run α) : (inNative name run).Contained := by
  intro s fault t h
  unfold inNative at h
  split at h
  · cases h
  · rename_i hpass
    exact absurd h (hpass fault t)

theorem contained_lookup (scope : ScopeId) (name : String) : (lookup scope name).Contained := by
  apply contained_bind contained_get
  intro store
  cases store.lookup? scope name with
  | none => exact contained_fail _
  | some value => exact contained_pure value

theorem contained_assign (scope : ScopeId) (name : String) (value : Value) :
    (assign scope name value).Contained := by
  apply contained_bind contained_get
  intro store
  cases store.owner? scope name with
  | none => exact contained_fail _
  | some owner => exact contained_modifyGet _

end Run

/-! ## One level -/

namespace Machine

open Run

/-- Neither evaluation nor invocation lets any other fault out than that of a long integer. -/
structure Contained (m : Machine) : Prop where
  eval : ∀ scope expression, (m.eval scope expression).Contained
  invoke : ∀ callee arguments, (m.invoke callee arguments).Contained

variable {m : Machine}

theorem contained_inspected (value : Value) : (m.inspected value).Contained :=
  contained_ofAttempt (Attempt.limited_map (value.limited_inspect m.depth))

theorem contained_text (value : Value) : (m.text value).Contained :=
  contained_ofAttempt (Attempt.limited_map (value.limited_write m.depth))

theorem Contained.evalBody (h : m.Contained) (scope : ScopeId) (body : List Value) :
    (m.evalBody scope body).Contained :=
  contained_lastOf fun expression => h.eval scope expression

end Machine

namespace SpecialForm

open Run

variable {m : Machine} {scope : ScopeId}

theorem contained_malformed {α : Type} (keyword : Keyword) (problem : ShapeProblem) :
    (malformed keyword problem : Run α).Contained :=
  contained_fail _

/-- A shape problem that shows an operand. -/
theorem contained_shown {α : Type} (keyword : Keyword) (problem : String → ShapeProblem)
    (operand : Value) :
    (do malformed keyword (problem (← m.inspected operand)) : Run α).Contained :=
  contained_bind (Machine.contained_inspected operand) fun _ => contained_malformed _ _

theorem contained_parameterNames (keyword : Keyword) (parameters : List Value) :
    (parameterNames m keyword parameters).Contained := by
  induction parameters with
  | nil => exact contained_pure []
  | cons parameter rest ih =>
    unfold parameterNames
    split
    · exact contained_pure []
    · rename_i hcons
      cases hcons
      exact contained_bind ih fun _ => contained_pure _
    · exact contained_shown keyword _ _

theorem contained_closure (keyword : Keyword) (parameters body : List Value) (scope : ScopeId) :
    (closure m keyword parameters body scope).Contained := by
  apply contained_bind (contained_parameterNames keyword parameters)
  exact fun names => contained_bind (contained_modifyGet _) fun identity => contained_pure _

theorem contained_quoted (limit : Nat) (expression : Value) :
    (quoted limit expression).Contained := by
  induction limit generalizing expression with
  | zero => exact contained_throw_tooDeep
  | succ limit ih =>
    unfold quoted
    split
    · exact contained_pure _
    · apply contained_bind (contained_mapM fun item _ => ih item)
      exact fun items => contained_bind (contained_modifyGet _) fun first => contained_pure _
    · exact contained_pure _
    · exact contained_pure _

theorem contained_conditional (h : m.Contained) (operands : List Value) :
    (conditional m scope operands).Contained := by
  unfold conditional
  split
  · apply contained_bind (h.eval scope _)
    exact fun test => contained_ite (h.eval scope _) (contained_pure _)
  · apply contained_bind (h.eval scope _)
    exact fun test => contained_ite (h.eval scope _) (h.eval scope _)
  · exact contained_malformed _ _

theorem contained_definition (h : m.Contained) (operands : List Value) :
    (definition m scope operands).Contained := by
  unfold definition
  split
  · exact contained_malformed _ _
  · apply contained_bind (contained_closure _ _ _ scope)
    exact fun procedure => contained_bind (contained_modifyGet _) fun _ => contained_pure _
  · exact contained_malformed _ _
  · apply contained_bind (h.eval scope _)
    exact fun value => contained_bind (contained_modifyGet _) fun _ => contained_pure _
  · exact contained_malformed _ _
  · exact contained_shown _ _ _

theorem contained_bindInTurn (h : m.Contained) (bindings : List Value) :
    (bindInTurn m scope bindings).Contained := by
  induction bindings with
  | nil => exact contained_pure ()
  | cons binding rest ih =>
    unfold bindInTurn
    split
    · exact contained_pure ()
    · rename_i hcons
      cases hcons
      apply contained_bind (h.eval scope _)
      exact fun value => contained_bind (contained_modifyGet _) fun _ => ih
    · exact contained_shown _ _ _

theorem contained_binding (h : m.Contained) (operands : List Value) :
    (binding m scope operands).Contained := by
  unfold binding
  split
  · apply contained_bind (contained_modifyGet _)
    exact fun inner => contained_bind (contained_bindInTurn h _) fun _ => h.evalBody inner _
  · exact contained_malformed _ _

theorem contained_abstraction (operands : List Value) :
    (abstraction m scope operands).Contained := by
  unfold abstraction
  split
  · exact contained_malformed _ _
  · exact contained_closure _ _ _ scope
  · exact contained_shown _ _ _

theorem contained_guard (h : m.Contained) (operands : List Value) :
    (guard m scope operands).Contained := by
  unfold guard
  split
  · exact contained_malformed _ _
  · apply contained_bind (h.eval scope _)
    exact fun test => contained_ite (h.evalBody scope _) (contained_pure _)

theorem contained_repeatWhile (h : m.Contained) (test : Value) (body : List Value) (rounds : Nat) :
    (repeatWhile m scope test body rounds).Contained := by
  induction rounds with
  | zero => exact contained_throw fun fault h => by cases h
  | succ rounds ih =>
    apply contained_bind (h.eval scope test)
    exact fun result =>
      contained_ite (contained_bind (h.evalBody scope body) fun _ => ih) (contained_pure _)

theorem contained_loop (h : m.Contained) (operands : List Value) :
    (loop m scope operands).Contained := by
  unfold loop
  split
  · exact contained_malformed _ _
  · exact contained_repeatWhile h _ _ m.rounds

theorem contained_assignment (h : m.Contained) (operands : List Value) :
    (assignment m scope operands).Contained := by
  unfold assignment
  split
  · apply contained_bind (h.eval scope _)
    exact fun value => contained_bind (contained_assign scope _ value) fun _ => contained_pure _
  · exact contained_shown _ _ _
  · exact contained_malformed _ _

theorem contained_quotation (operands : List Value) : (quotation m operands).Contained := by
  unfold quotation
  split
  · exact contained_quoted m.depth _
  · exact contained_malformed _ _

theorem contained_run (h : m.Contained) (keyword : Keyword) (operands : List Value) :
    (run m scope keyword operands).Contained := by
  cases keyword with
  | conditional => exact contained_conditional h operands
  | definition => exact contained_definition h operands
  | binding => exact contained_binding h operands
  | abstraction => exact contained_abstraction operands
  | sequence => exact h.evalBody scope operands
  | guard => exact contained_guard h operands
  | loop => exact contained_loop h operands
  | assignment => exact contained_assignment h operands
  | quotation => exact contained_quotation operands

end SpecialForm

/-! ## All levels -/

namespace Machine

open Run

variable {m : Machine}

theorem contained_refuse (value : Value) : (m.refuse value).Contained :=
  contained_bind (contained_text value) fun _ => contained_fail _

theorem Contained.evalForm (h : m.Contained) (scope : ScopeId) (head : Value)
    (operands : List Value) : (m.evalForm scope head operands).Contained := by
  unfold Machine.evalForm
  split
  · exact SpecialForm.contained_run h _ operands
  · apply contained_bind (h.eval scope head)
    intro callee
    apply contained_bind (contained_mapM fun operand _ => h.eval scope operand)
    exact fun arguments => contained_ite (h.invoke callee arguments) (contained_refuse callee)

/-- One more level on top of a machine that contains its faults. -/
theorem contained_above (h : m.Contained) : (above hosts m).Contained where
  eval scope expression := by
    show (m.evalStep scope expression).Contained
    unfold evalStep
    split
    · exact contained_lookup scope _
    · exact contained_pure _
    · exact h.evalForm scope _ _
    · exact contained_pure _
    · exact contained_pure _
  invoke callee arguments := by
    show (m.invokeStep hosts callee arguments).Contained
    unfold invokeStep
    split
    · exact contained_bind (contained_modifyGet _) fun scope => h.evalBody scope _
    · exact contained_inNative _ _
    · exact contained_inNative _ _
    · exact contained_refuse _

/-- The machine of any depth contains its faults. -/
theorem contained_ofDepth (rounds depth : Nat) : (ofDepth hosts rounds depth).Contained := by
  induction depth with
  | zero => exact ⟨fun _ _ => contained_throw_tooDeep, fun _ _ => contained_throw_tooDeep⟩
  | succ depth ih => exact contained_above ih

end Machine

/-! ## Sources -/

theorem readInside_ne_fault {room : Nat} {items : List Value} {outer : List (List Value)}
    {tokens left : List Token} {stop : Stop}
    (h : readInside room items outer tokens = (.error stop, left)) (fault : Fault) :
    stop ≠ .fault fault := by
  fun_induction readInside room items outer tokens with
  | case1 | case4 =>
    cases h
    rintro ⟨⟩
  | case2 => cases h
  | case3 room items tokens around outer ih => exact ih h
  | case5 items outer tokens room ih => exact ih h
  | case6 room items outer text tokens ih => exact ih h
  | case7 room items outer text tokens ih => exact ih h

theorem readOne_ne_fault {limit : Nat} {tokens left : List Token} {stop : Stop}
    (h : readOne limit tokens = (.error stop, left)) (fault : Fault) : stop ≠ .fault fault := by
  match tokens with
  | [] | .closing :: _ =>
    cases h
    rintro ⟨⟩
  | .string _ :: _ | .atom _ :: _ => cases h
  | .opening :: rest => exact readInside_ne_fault h fault

/-- What cannot be read is no fault. -/
theorem readMany_ne_fault {limit count : Nat} {tokens : List Token} {stop : Stop}
    (h : (readMany limit count tokens).2 = some stop) (fault : Fault) : stop ≠ .fault fault := by
  fun_induction readMany limit count tokens with
  | case1 | case2 => cases h
  | case3 count token tokens stop rest hread =>
    cases h
    exact readOne_ne_fault hread fault
  | case4 count token tokens tree rest hread trees stop hrest ih =>
    rw [hrest] at ih
    exact ih h

theorem Machine.contained_evalText (hosts : Hosts) (rounds depth : Nat) (scope : ScopeId)
    (source : String) :
    ((ofDepth hosts rounds depth).evalText scope source).Contained := by
  unfold evalText evalTokens
  cases hread : readAll (ofDepth hosts rounds depth).depth (tokenize source) with
  | mk trees ending =>
    apply Run.contained_bind ((contained_ofDepth rounds depth).evalBody scope trees)
    intro result
    cases ending with
    | none => exact Run.contained_pure result
    | some stop =>
      exact Run.contained_throw (readMany_ne_fault (congrArg Prod.snd hread))

end TinyLisp
