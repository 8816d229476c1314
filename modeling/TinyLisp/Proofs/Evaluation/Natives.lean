import TinyLisp.Proofs.Evaluation.Attempts
import TinyLisp.SourceText

/-!
# Natives

Whatever a native does, two machines that are coupled make it do the same.

There are five groups.

* `Machine.Coupled`: two machines that are coupled, and what follows for the texts
  they write and the bodies and sources they evaluate.
* `Native.Coupled`: two natives that are coupled, with one rule for each number of
  arguments.
* What the natives do, one lemma for each operation that calls back or changes
  the store.
* `Hosts.Coupled`: what is asked of host functions.
* `Operation.coupled_native` and `coupled_callbackNative`: all natives.
-/

namespace TinyLisp

variable {C : Coupling} {s : Store} {hosts : Hosts} {m m' : Machine}

/-! ## Machines that are coupled -/

/-- Two machines whose evaluations and invocations end alike. -/
structure Machine.Coupled (C : Coupling) (m m' : Machine) : Prop where
  depth : m.depth = m'.depth
  rounds : m.rounds = m'.rounds
  eval : ∀ {s scope expression}, C.source s scope expression →
    Run.Coupled C s C.value (m.eval scope expression) (m'.eval scope expression)
  invoke : ∀ {s callee arguments}, C.value s callee → C.values s arguments →
    Run.Coupled C s C.value (m.invoke callee arguments) (m'.invoke callee arguments)

namespace Machine

open Run

theorem Coupled.text (h : m.Coupled C m') (value : Value) :
    Run.Coupled C s anything (m.text value) (m'.text value) := by
  unfold Machine.text
  rw [h.depth]
  exact coupled_silent (value.silent_text m'.depth)

theorem Coupled.inspected (h : m.Coupled C m') (value : Value) :
    Run.Coupled C s anything (m.inspected value) (m'.inspected value) := by
  unfold Machine.inspected
  rw [h.depth]
  exact coupled_silent (value.silent_inspected m'.depth)

/-- An error that only names the text of a value. -/
theorem Coupled.complain {α : Type} {P : Store → α → Prop} (h : m.Coupled C m') (value : Value)
    {error : String → LispError} (herror : ∀ text, Stop.carried? (.error (error text)) = none) :
    Run.Coupled C s P (m.text value >>= fun text => fail (error text))
      (m'.text value >>= fun text => fail (error text)) :=
  coupled_bind (h.text value) fun _ text _ _ => coupled_fail (herror text)

theorem Coupled.evalBody {scope : ScopeId} {body : List Value} (h : m.Coupled C m')
    (hbody : C.sources s scope body) :
    Run.Coupled C s C.value (m.evalBody scope body) (m'.evalBody scope body) := by
  apply coupled_lastOf (C.value_plain rfl)
  intro t form hform hlater
  exact h.eval (C.source_later hlater (hbody form hform))

theorem Coupled.evalTokens {scope : ScopeId} {tokens : List Token} (h : m.Coupled C m')
    (hbody : C.sources s scope (readAll m'.depth tokens).1) :
    Run.Coupled C s C.value (m.evalTokens scope tokens) (m'.evalTokens scope tokens) := by
  unfold Machine.evalTokens
  rw [h.depth]
  have hstop := carried?_of_readAll m'.depth tokens
  generalize readAll m'.depth tokens = found at hbody hstop ⊢
  obtain ⟨expressions, ending⟩ := found
  apply coupled_bind (h.evalBody hbody)
  intro t result _ hresult
  cases ending with
  | none => exact coupled_value hresult
  | some stop =>
    apply coupled_throw
    intro v hv
    rw [hstop stop rfl] at hv
    cases hv

end Machine

/-! ## Natives that are coupled -/

/-- Two natives that end alike with arguments that may be used. -/
def Native.Coupled (C : Coupling) (n n' : Native) : Prop :=
  ∀ s arguments, C.values s arguments →
    Run.Coupled C s C.value (n.call arguments) (n'.call arguments)

namespace Native

open Run

theorem coupled_nullary {count : ArgumentCount} {action action' : Run Value}
    (h : ∀ {s}, Run.Coupled C s C.value action action') :
    Coupled C (nullary count action) (nullary count action') := by
  intro s arguments _
  cases arguments with
  | nil => exact h
  | cons a rest => exact coupled_fault

theorem coupled_unary {count : ArgumentCount} {action action' : Value → Run Value}
    (h : ∀ {s a}, C.value s a → Run.Coupled C s C.value (action a) (action' a)) :
    Coupled C (unary count action) (unary count action') := by
  intro s arguments hvalues
  rcases arguments with _ | ⟨a, _ | ⟨b, rest⟩⟩
  · exact coupled_fault
  · exact h (hvalues a (by simp))
  · exact coupled_fault

theorem coupled_binary {count : ArgumentCount} {action action' : Value → Value → Run Value}
    (h : ∀ {s a b}, C.value s a → C.value s b →
      Run.Coupled C s C.value (action a b) (action' a b)) :
    Coupled C (binary count action) (binary count action') := by
  intro s arguments hvalues
  rcases arguments with _ | ⟨a, _ | ⟨b, _ | ⟨c, rest⟩⟩⟩
  · exact coupled_fault
  · exact coupled_fault
  · exact h (hvalues a (by simp)) (hvalues b (by simp))
  · exact coupled_fault

theorem coupled_ternary {count : ArgumentCount} {action action' : Value → Value → Value → Run Value}
    (h : ∀ {s a b c}, C.value s a → C.value s b → C.value s c →
      Run.Coupled C s C.value (action a b c) (action' a b c)) :
    Coupled C (ternary count action) (ternary count action') := by
  intro s arguments hvalues
  rcases arguments with _ | ⟨a, _ | ⟨b, _ | ⟨c, _ | ⟨d, rest⟩⟩⟩⟩
  · exact coupled_fault
  · exact coupled_fault
  · exact coupled_fault
  · exact h (hvalues a (by simp)) (hvalues b (by simp)) (hvalues c (by simp))
  · exact coupled_fault

theorem coupled_variadic {action action' : List Value → Run Value}
    (h : ∀ {s arguments}, C.values s arguments →
      Run.Coupled C s C.value (action arguments) (action' arguments)) :
    Coupled C (variadic action) (variadic action') := by
  intro s arguments hvalues
  have hcall : ∀ action : List Value → Run Value,
      (variadic action).call arguments = action arguments := by
    intro action
    rcases arguments with _ | ⟨a, _ | ⟨b, _ | ⟨c, _ | ⟨d, rest⟩⟩⟩⟩ <;> rfl
  rw [hcall, hcall]
  exact h hvalues

theorem coupled_attemptOne {count : ArgumentCount} {attempt : Value → Attempt Value}
    (h : ∀ {s a}, C.value s a → (attempt a).Yields (C.value s)) :
    Coupled C (attemptOne count attempt) (attemptOne count attempt) :=
  coupled_unary fun ha => coupled_attemptValue (h ha)

theorem coupled_attemptTwo {count : ArgumentCount} {attempt : Value → Value → Attempt Value}
    (h : ∀ {s a b}, C.value s a → C.value s b → (attempt a b).Yields (C.value s)) :
    Coupled C (attemptTwo count attempt) (attemptTwo count attempt) :=
  coupled_binary fun ha hb => coupled_attemptValue (h ha hb)

theorem coupled_attemptAll {attempt : List Value → Attempt Value}
    (h : ∀ {s arguments}, C.values s arguments → (attempt arguments).Yields (C.value s)) :
    Coupled C (attemptAll attempt) (attemptAll attempt) :=
  coupled_variadic fun harguments => coupled_attemptValue (h harguments)

theorem coupled_question {parameter callee : String} {answer : Value → Bool} :
    Coupled C (question parameter answer callee) (question parameter answer callee) :=
  coupled_unary fun _ => coupled_value (C.value_plain rfl)

end Native

/-! ## Natives that invoke procedures -/

namespace Calling

open Run

variable {procedure list initial : Value}

theorem coupled_invoke {arguments : List Value} (h : m.Coupled C m')
    (hprocedure : C.value s procedure) (harguments : C.values s arguments) :
    Run.Coupled C s C.value (invoke m procedure arguments) (invoke m' procedure arguments) := by
  apply coupled_ite
  · exact h.invoke hprocedure harguments
  · exact h.complain procedure fun _ => rfl

/-- A procedure on one argument. -/
theorem coupled_invoke_one {a : Value} (h : m.Coupled C m') (hprocedure : C.value s procedure)
    (ha : C.value s a) :
    Run.Coupled C s C.value (invoke m procedure [a]) (invoke m' procedure [a]) :=
  coupled_invoke h hprocedure (Coupling.values_cons.2 ⟨ha, Coupling.values_nil⟩)

theorem coupled_elementsOf (h : m.Coupled C m') (hlist : C.value s list) :
    Run.Coupled C s C.values (elementsOf m list) (elementsOf m' list) := by
  unfold elementsOf
  rw [h.depth]
  exact coupled_attemptValues (Sequence.yields_elements m'.depth hlist)

theorem coupled_map (h : m.Coupled C m') (hprocedure : C.value s procedure)
    (hlist : C.value s list) :
    Run.Coupled C s C.value (map m procedure list) (map m' procedure list) := by
  apply coupled_bind (coupled_elementsOf h hlist)
  intro t items hlater hitems
  have hprocedure := C.value_later hlater hprocedure
  apply coupled_bind
    (coupled_mapM fun item hitem => coupled_invoke_one h hprocedure (hitems item hitem))
  intro u results _ hresults
  exact coupled_newList hresults

theorem coupled_filter (h : m.Coupled C m') (hprocedure : C.value s procedure)
    (hlist : C.value s list) :
    Run.Coupled C s C.value (filter m procedure list) (filter m' procedure list) := by
  apply coupled_bind (coupled_elementsOf h hlist)
  intro t items hlater hitems
  have hprocedure := C.value_later hlater hprocedure
  have hkept := coupled_filterM hitems fun item hitem =>
    coupled_bind (coupled_invoke_one h hprocedure (hitems item hitem))
      fun u result _ _ => coupled_pure (a := result.isTruthy) fun _ _ => trivial
  apply coupled_bind hkept
  intro u kept _ hkept
  exact coupled_newList hkept

theorem coupled_reduce (h : m.Coupled C m') (hprocedure : C.value s procedure)
    (hinitial : C.value s initial) (hlist : C.value s list) :
    Run.Coupled C s C.value (reduce m procedure initial list)
      (reduce m' procedure initial list) := by
  apply coupled_bind (coupled_elementsOf h hlist)
  intro t items hlater hitems
  apply coupled_foldlM (C.value_later hlater hinitial)
  intro u item total hitem hlater' htotal
  apply coupled_invoke h (C.value_later (C.later_trans hlater hlater') hprocedure)
  have hitem := C.value_later hlater' (hitems item hitem)
  exact Coupling.values_cons.2 ⟨htotal, Coupling.values_cons.2 ⟨hitem, Coupling.values_nil⟩⟩

theorem coupled_forEach (h : m.Coupled C m') (hprocedure : C.value s procedure)
    (hlist : C.value s list) :
    Run.Coupled C s C.value (forEach m procedure list) (forEach m' procedure list) := by
  apply coupled_bind (coupled_elementsOf h hlist)
  intro t items hlater hitems
  have hprocedure := C.value_later hlater hprocedure
  have hsteps : Run.Coupled C t anything
      (items.forM fun item => do let _ ← invoke m procedure [item])
      (items.forM fun item => do let _ ← invoke m' procedure [item]) := by
    apply coupled_forM
    intro item hitem
    apply coupled_bind (coupled_invoke_one h hprocedure (hitems item hitem))
    exact fun _ _ _ _ => coupled_pure fun _ _ => trivial
  apply coupled_bind hsteps
  exact fun _ _ _ _ => coupled_value (C.value_plain rfl)

theorem coupled_apply (h : m.Coupled C m') (hprocedure : C.value s procedure)
    (hlist : C.value s list) :
    Run.Coupled C s C.value (apply m procedure list) (apply m' procedure list) := by
  apply coupled_bind (coupled_elementsOf h hlist)
  intro t items hlater hitems
  exact coupled_invoke h (C.value_later hlater hprocedure) hitems

theorem coupled_makeCallback (h : m.Coupled C m') (hprocedure : C.value s procedure) :
    Run.Coupled C s C.value (makeCallback m procedure) (makeCallback m' procedure) := by
  apply coupled_ite
  · apply coupled_bind coupled_reserve
    intro t identity hlater _
    exact coupled_value (C.value_callback.2 (C.value_later hlater hprocedure))
  · exact h.complain procedure fun _ => rfl

end Calling

/-! ## Natives that build values and bind names -/

namespace Building

open Run

theorem coupled_part {callee : String} {choose : Value → Value → Value}
    (hchoose : ∀ {s head tail}, C.value s head → C.value s tail → C.value s (choose head tail))
    (h : m.Coupled C m') {a : Value} (ha : C.value s a) :
    Run.Coupled C s C.value (part m callee choose a) (part m' callee choose a) := by
  unfold part
  split
  · obtain ⟨hhead, htail⟩ := C.value_pair.1 ha
    exact coupled_value (hchoose hhead htail)
  · exact h.complain _ fun _ => rfl

theorem coupled_append (h : m.Coupled C m') {lists : List Value} (hlists : C.values s lists) :
    Run.Coupled C s C.value (append m lists) (append m' lists) := by
  unfold append
  rw [h.depth]
  split
  · exact coupled_value (C.value_plain rfl)
  · rename_i last hlast
    have hfront : C.values s lists.dropLast := fun list hlist =>
      hlists list (List.dropLast_subset lists hlist)
    apply coupled_bind (coupled_attemptValues (Sequence.yields_elementsOfAll m'.depth hfront))
    intro t items hlater hitems
    exact coupled_newChain hitems (C.value_later hlater (hlists last (List.mem_of_getLast? hlast)))

theorem coupled_plainText (h : m.Coupled C m') (value : Value) :
    Run.Coupled C s anything (plainText m value) (plainText m' value) := by
  unfold plainText
  split
  · exact coupled_pure fun _ _ => trivial
  · exact h.text _

theorem coupled_stringAppend (h : m.Coupled C m') (arguments : List Value) :
    Run.Coupled C s C.value (stringAppend m arguments) (stringAppend m' arguments) := by
  apply coupled_bind (coupled_mapM_anything fun a _ => coupled_plainText h a)
  exact fun _ _ _ _ => coupled_value (C.value_plain rfl)

theorem coupled_print (h : m.Coupled C m') (arguments : List Value) :
    Run.Coupled C s C.value (print m arguments) (print m' arguments) := by
  apply coupled_bind (coupled_mapM_anything fun a _ => coupled_plainText h a)
  intro t texts _ _
  apply coupled_bind Run.coupled_print
  exact fun _ _ _ _ => coupled_value (C.value_plain rfl)

theorem coupled_numberToString (h : m.Coupled C m') (a : Value) :
    Run.Coupled C s C.value (numberToString m a) (numberToString m' a) := by
  unfold numberToString
  rw [h.depth]
  apply coupled_bind (coupled_silent (Arithmetic.silent_numbers m'.depth "number->string" [a]))
  intro t _ _ _
  apply coupled_bind (h.text a)
  exact fun _ _ _ _ => coupled_value (C.value_plain rfl)

theorem coupled_stringToNumber (h : m.Coupled C m') (a : Value) :
    Run.Coupled C s C.value (stringToNumber m a) (stringToNumber m' a) := by
  unfold stringToNumber
  split
  · split
    · exact coupled_value (C.value_plain rfl)
    · exact h.complain _ fun _ => rfl
  · exact h.complain _ fun _ => rfl

/-- The setter of global names binds a name in the root of both stores. -/
theorem coupled_bindGlobal {identity : Identity} {own : String} {scope : ScopeId} {value : Value}
    {name : String} (hnative : C.value s (.native identity own (.setGlobal scope)))
    (hbinds : ∀ t u, C.stores t u → C.later s t → C.binds t (t.rootOf scope) name)
    (hvalue : C.value s value) :
    Run.Coupled C s C.value
      (do Run.bind ((← get).rootOf scope) name value; return value)
      (do Run.bind ((← get).rootOf scope) name value; return value) := by
  apply coupled_read (·.rootOf scope) (fun root => do Run.bind root name value; return value)
    (fun root => do Run.bind root name value; return value)
  intro t u hstores hlater
  refine ⟨C.rootOf hstores (C.value_later hlater hnative), ?_⟩
  have hvalue := C.value_later hlater hvalue
  apply coupled_bind (coupled_bindName (hbinds t u hstores hlater) hvalue)
  intro w _ hlater' _
  exact coupled_value (C.value_later hlater' hvalue)

theorem coupled_setGlobal (h : m.Coupled C m') {identity : Identity} {own : String}
    {scope : ScopeId} {target value : Value}
    (hnative : C.value s (.native identity own (.setGlobal scope)))
    (hbinds : ∀ name, (Value.native identity own (.setGlobal scope)).SetsGlobal scope name
      [target, value] → ∀ t u, C.stores t u → C.later s t → C.binds t (t.rootOf scope) name)
    (hvalue : C.value s value) :
    Run.Coupled C s C.value (setGlobal m scope target value) (setGlobal m' scope target value) := by
  unfold setGlobal
  split
  · exact coupled_bindGlobal hnative (hbinds _ (.symbol identity own value)) hvalue
  · exact coupled_bindGlobal hnative (hbinds _ (.string identity own value)) hvalue
  · exact h.complain _ fun _ => rfl

end Building

/-! ## All operations -/

open Attempt Native

/-- A value without parts, from an attempt of any kind. -/
theorem yields_plain {α : Type} {attempt : Attempt α} {f : α → Value} (h : attempt.Silent)
    (hf : ∀ a, (f a).isPlain = true) :
    Attempt.Yields (C.value s) (attempt >>= fun a => pure (f a)) :=
  h.bind fun a => .ok (C.value_plain (hf a))

theorem Attempt.Plain.value {attempt : Attempt Value} (h : attempt.Plain) :
    attempt.Yields (C.value s) := by
  cases h with
  | ok h => exact .ok (C.value_plain h)
  | error h => exact .error h

/-- A native that computes one value without parts from one argument. -/
theorem coupled_compute {α : Type} {count : ArgumentCount} {attempt : Value → Attempt α}
    {f : α → Value} (h : ∀ a, (attempt a).Silent) (hf : ∀ a, (f a).isPlain = true) :
    Native.Coupled C (attemptOne count fun a => attempt a >>= fun b => pure (f b))
      (attemptOne count fun a => attempt a >>= fun b => pure (f b)) :=
  coupled_attemptOne fun _ => yields_plain (h _) hf

/-- A native that computes one value without parts from two arguments. -/
theorem coupled_computeTwo {α : Type} {count : ArgumentCount} {attempt : Value → Value → Attempt α}
    {f : α → Value} (h : ∀ a b, (attempt a b).Silent) (hf : ∀ a, (f a).isPlain = true) :
    Native.Coupled C (attemptTwo count fun a b => attempt a b >>= fun c => pure (f c))
      (attemptTwo count fun a b => attempt a b >>= fun c => pure (f c)) :=
  coupled_attemptTwo fun _ _ => yields_plain (h _ _) hf

/-- A native that computes one value without parts from all its arguments. -/
theorem coupled_computeAll {α : Type} {attempt : List Value → Attempt α} {f : α → Value}
    (h : ∀ arguments, (attempt arguments).Silent) (hf : ∀ a, (f a).isPlain = true) :
    Native.Coupled C (attemptAll fun arguments => attempt arguments >>= fun a => pure (f a))
      (attemptAll fun arguments => attempt arguments >>= fun a => pure (f a)) :=
  coupled_attemptAll fun _ => yields_plain (h _) hf

/-- A native that first takes its arguments as numbers. -/
theorem coupled_computeNumbers {α : Type} {depth : Nat} {name : String}
    {attempt : List Number → Attempt α} {f : α → Value} (h : ∀ operands, (attempt operands).Silent)
    (hf : ∀ a, (f a).isPlain = true) :
    Native.Coupled C
      (attemptAll fun arguments =>
        return f (← attempt (← Arithmetic.numbers depth name arguments)))
      (attemptAll fun arguments =>
        return f (← attempt (← Arithmetic.numbers depth name arguments))) :=
  coupled_attemptAll fun _ =>
    (Arithmetic.silent_numbers depth name _).bind fun _ => yields_plain (h _) hf

theorem coupled_remainderOf (h : m.Coupled C m') {name callee : String}
    {rest : Number → Number → Attempt Float} (hrest : ∀ a b, (rest a b).Silent) :
    Native.Coupled C (remainderOf m name callee rest) (remainderOf m' name callee rest) := by
  unfold remainderOf
  rw [h.depth]
  apply coupled_attemptTwo
  intro s a b _ _
  apply (Arithmetic.silent_number m'.depth name a).bind
  intro dividend
  apply (Arithmetic.silent_number m'.depth name b).bind
  intro divisor
  exact yields_plain (hrest dividend divisor) fun _ => rfl

theorem coupled_comparison (h : m.Coupled C m') (operator : Comparison) :
    Native.Coupled C (comparison m operator) (comparison m' operator) := by
  unfold comparison
  rw [h.depth]
  exact coupled_computeAll (fun _ => silent_chainHolds (operator.silent_holds m'.depth) _)
    fun _ => rfl

theorem coupled_extremum (h : m.Coupled C m') (callee : String) (operator : Comparison) :
    Native.Coupled C (attemptAll (extremum callee (operator.holds m.depth)))
      (attemptAll (extremum callee (operator.holds m'.depth))) := by
  rw [h.depth]
  exact coupled_attemptAll fun harguments =>
    yields_extremum (operator.silent_holds m'.depth) harguments

theorem coupled_random {count : ArgumentCount} :
    Native.Coupled C
      (.unary count fun a => do
        let draw ← modifyGet Store.draw
        return .float (← Run.ofAttempt (Arithmetic.scaleBy draw a)))
      (.unary count fun a => do
        let draw ← modifyGet Store.draw
        return .float (← Run.ofAttempt (Arithmetic.scaleBy draw a))) := by
  apply coupled_unary
  intro s a _
  apply Run.coupled_bind Run.coupled_draw
  intro t draw _ _
  apply Run.coupled_bind (Run.coupled_silent (Arithmetic.silent_scaleBy draw a))
  exact fun _ _ _ _ => Run.coupled_value (C.value_plain rfl)

theorem coupled_range (h : m.Coupled C m') {count : ArgumentCount} :
    Native.Coupled C
      (.binary count fun start stop => do
        Run.newList (← Run.ofAttempt (Sequence.countUp m.depth m.rounds start stop)))
      (.binary count fun start stop => do
        Run.newList (← Run.ofAttempt (Sequence.countUp m'.depth m'.rounds start stop))) := by
  rw [h.depth, h.rounds]
  apply coupled_binary
  intro s start stop hstart _
  apply Run.coupled_bind
    (Run.coupled_attemptValues (Sequence.yields_countUp m'.depth m'.rounds hstart))
  exact fun _ _ _ hitems => Run.coupled_newList hitems

theorem coupled_reverse (h : m.Coupled C m') {count : ArgumentCount} :
    Native.Coupled C
      (.unary count fun list => do Run.newList (← Calling.elementsOf m list).reverse)
      (.unary count fun list => do Run.newList (← Calling.elementsOf m' list).reverse) := by
  apply coupled_unary
  intro s list hlist
  apply Run.coupled_bind (Calling.coupled_elementsOf h hlist)
  intro t items _ hitems
  exact Run.coupled_newList fun item hitem => hitems item (List.mem_reverse.1 hitem)

theorem Primitive.coupled_native (h : m.Coupled C m') (primitive : Primitive) :
    Native.Coupled C (primitive.native m) (primitive.native m') := by
  have hdepth := h.depth
  cases primitive with
  | absolute => exact coupled_attemptOne fun _ => (Arithmetic.plain_absolute _).value
  | maximum => exact coupled_extremum h "max" .greater
  | minimum => exact coupled_extremum h "min" .less
  | squareRoot => exact coupled_compute Arithmetic.silent_squareRoot fun _ => rfl
  | sine => exact coupled_compute (Arithmetic.silent_bounded .sin) fun _ => rfl
  | cosine => exact coupled_compute (Arithmetic.silent_bounded .cos) fun _ => rfl
  | power => exact coupled_computeTwo Arithmetic.silent_power fun _ => rfl
  | round => exact coupled_compute Arithmetic.silent_rounded fun _ => rfl
  | floor => exact coupled_compute (Arithmetic.silent_integral _) fun _ => rfl
  | ceiling => exact coupled_compute (Arithmetic.silent_integral _) fun _ => rfl
  | radians => exact coupled_compute Arithmetic.silent_radians fun _ => rfl
  | random => exact coupled_random
  | add =>
    simp only [Primitive.native, hdepth]
    exact coupled_computeNumbers Arithmetic.silent_sum fun _ => rfl
  | subtract =>
    simp only [Primitive.native, hdepth]
    exact coupled_computeNumbers Arithmetic.silent_difference Number.isPlain_toValue
  | multiply =>
    simp only [Primitive.native, hdepth]
    exact coupled_computeNumbers Arithmetic.silent_product fun _ => rfl
  | divide =>
    simp only [Primitive.native, hdepth]
    exact coupled_computeNumbers Arithmetic.silent_quotient Number.isPlain_toValue
  | modulo => exact coupled_remainderOf h Arithmetic.silent_remainder
  | floorModulo => exact coupled_remainderOf h Arithmetic.silent_floorRemainder
  | negate => exact coupled_attemptOne fun _ => (Arithmetic.plain_negate _).value
  | numericEqual =>
    simp only [Primitive.native, hdepth]
    exact coupled_computeAll (fun _ => silent_chainHolds (fun _ _ => silent_orTooDeep _) _)
      fun _ => rfl
  | less => exact coupled_comparison h .less
  | greater => exact coupled_comparison h .greater
  | lessEqual => exact coupled_comparison h .lessEqual
  | greaterEqual => exact coupled_comparison h .greaterEqual
  | same =>
    simp only [Primitive.native, hdepth]
    exact coupled_computeTwo (fun _ _ => silent_orTooDeep _) fun _ => rfl
  | equal =>
    simp only [Primitive.native, hdepth]
    exact coupled_computeTwo (fun _ _ => silent_orTooDeep _) fun _ => rfl
  | not | isNull | isNumber | isString | isSymbol | isProcedure | isList | isPair =>
    exact coupled_question
  | cons => exact coupled_binary fun hhead htail => Run.coupled_newPair hhead htail
  | head => exact coupled_unary fun ha => Building.coupled_part (fun hhead _ => hhead) h ha
  | tail => exact coupled_unary fun ha => Building.coupled_part (fun _ htail => htail) h ha
  | list => exact coupled_variadic fun harguments => Run.coupled_newList harguments
  | length =>
    simp only [Primitive.native, hdepth]
    exact coupled_attemptOne fun ha => (Sequence.plain_length m'.depth ha).value
  | listRef =>
    simp only [Primitive.native, hdepth]
    exact coupled_attemptTwo fun hlist _ => Sequence.yields_item m'.depth hlist
  | append => exact coupled_variadic fun harguments => Building.coupled_append h harguments
  | range => exact coupled_range h
  | sum =>
    simp only [Primitive.native, hdepth]
    apply coupled_attemptOne
    intro s list hlist
    apply (Sequence.yields_elements m'.depth hlist).silent.bind
    intro items
    apply (Arithmetic.silent_numbers m'.depth "+" items).bind
    intro operands
    exact yields_plain (Arithmetic.silent_sum operands) fun _ => rfl
  | map => exact coupled_binary fun hprocedure hlist => Calling.coupled_map h hprocedure hlist
  | filter => exact coupled_binary fun hprocedure hlist => Calling.coupled_filter h hprocedure hlist
  | reduce =>
    exact coupled_ternary fun hprocedure hinitial hlist =>
      Calling.coupled_reduce h hprocedure hinitial hlist
  | reverse => exact coupled_reverse h
  | last =>
    simp only [Primitive.native, hdepth]
    exact coupled_attemptOne fun hlist => Sequence.yields_last m'.depth hlist
  | forEach =>
    exact coupled_binary fun hprocedure hlist => Calling.coupled_forEach h hprocedure hlist
  | apply => exact coupled_binary fun hprocedure hlist => Calling.coupled_apply h hprocedure hlist
  | stringAppend => exact coupled_variadic fun _ => Building.coupled_stringAppend h _
  | numberToString => exact coupled_unary fun _ => Building.coupled_numberToString h _
  | stringToNumber => exact coupled_unary fun _ => Building.coupled_stringToNumber h _
  | makeCallback => exact coupled_unary fun hprocedure => Calling.coupled_makeCallback h hprocedure
  | print => exact coupled_variadic fun _ => Building.coupled_print h _

/-! ## All natives -/

/-- Host functions that get at the store through what they are handed and nothing else: their
arguments, the machine that they run on, and the root of the session if they evaluate texts.
Under every coupling, two machines that are coupled then make them do the same. -/
class Hosts.Coupled (hosts : Hosts) : Prop where
  coupled : ∀ {C : Coupling} {m m' : Machine} {s : Store} {identity : Identity} {own : String}
    {function : HostFunction} {arguments : List Value}, m.Coupled C m' →
    C.value s (.native identity own (.host function)) → C.values s arguments →
    Run.Coupled C s C.value ((hosts.native function m).call arguments)
      ((hosts.native function m').call arguments)

/-- Two machines that are coupled make every native do the same. -/
theorem Operation.coupled_native [hosts.Coupled] (h : m.Coupled C m') {identity : Identity}
    {own : String}
    {operation : Operation} (hnative : C.value s (.native identity own operation))
    {arguments : List Value} (harguments : C.values s arguments)
    (hbinds : ∀ scope name, (Value.native identity own operation).SetsGlobal scope name arguments →
      ∀ t u, C.stores t u → C.later s t → C.binds t (t.rootOf scope) name) :
    Run.Coupled C s C.value ((operation.native hosts m).call arguments)
      ((operation.native hosts m').call arguments) := by
  cases operation with
  | primitive primitive => exact primitive.coupled_native h s arguments harguments
  | host function => exact Hosts.Coupled.coupled h hnative harguments
  | setGlobal scope =>
    rcases arguments with _ | ⟨a, _ | ⟨b, _ | ⟨c, rest⟩⟩⟩
    · exact Run.coupled_fault
    · exact Run.coupled_fault
    · exact Building.coupled_setGlobal h hnative (hbinds scope) (harguments b (by simp))
    · exact Run.coupled_fault

theorem coupled_callbackNative (h : m.Coupled C m') {target : Value} (htarget : C.value s target)
    {arguments : List Value} :
    Run.Coupled C s C.value ((callbackNative m target).call arguments)
      ((callbackNative m' target).call arguments) := by
  cases arguments with
  | nil => exact h.invoke htarget Coupling.values_nil
  | cons a rest => exact Run.coupled_fault

end TinyLisp
