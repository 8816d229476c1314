import TinyLisp.Proofs.Simulation.Attempts
import TinyLisp.SourceText

/-!
# Natives that follow each other

Over machines that follow each other, every native follows itself.

There are six groups.

* `Machine.Follows`: one machine answers another, and what follows for the texts
  they write and the bodies and sources they evaluate.
* `Native.Follows`, with one rule for each number of arguments.
* Natives that invoke procedures.
* Natives that build values and bind names.
* `Hosts.Uniform`: what is asked of host functions.
* `Operation.follows_native` and `follows_callbackNative`: all natives.
-/

namespace TinyLisp

variable {S : Simulation} {hosts : Hosts} {m m' : Machine}

/-! ## Machines -/

/-- The second machine answers the first. -/
structure Machine.Follows (S : Simulation) (m m' : Machine) : Prop where
  depth : S.Further .tooDeep m.depth m'.depth
  rounds : S.Further .tooLong m.rounds m'.rounds
  eval : ∀ scope expression, Run.Follows S (Value.rename S.new) (m.eval scope expression)
    (m'.eval scope (expression.rename S.new))
  invoke : ∀ callee arguments, Run.Follows S (Value.rename S.new) (m.invoke callee arguments)
    (m'.invoke (callee.rename S.new) (arguments.map (Value.rename S.new)))

namespace Machine

open Run

theorem Follows.text (h : Follows S m m') (v : Value) :
    Run.Follows S id (m.text v) (m'.text (v.rename S.new)) :=
  follows_ofAttempt (Value.follows_text h.depth v)

theorem Follows.inspected (h : Follows S m m') (v : Value) :
    Run.Follows S id (m.inspected v) (m'.inspected (v.rename S.new)) :=
  follows_ofAttempt (Value.follows_inspected h.depth v)

/-- An error that only names the text of a value. -/
theorem Follows.complain {α : Type} {f : α → α} (h : Follows S m m') (v : Value)
    {error : String → LispError} (herror : ∀ text, Stop.carried? (.error (error text)) = none) :
    Run.Follows S f (do fail (error (← m.text v))) (do fail (error (← m'.text (v.rename S.new)))) :=
  follows_bind (h.text v) fun text => follows_fail (herror text)

theorem Follows.evalBody (h : Follows S m m') (scope : ScopeId) (body : List Value) :
    Run.Follows S (Value.rename S.new) (m.evalBody scope body)
      (m'.evalBody scope (body.map (Value.rename S.new))) :=
  follows_lastOf rfl fun expression _ => h.eval scope expression

/-- A body that goes on longer than one that breaks off at a limit. -/
theorem Follows.evalBody_excused {stop : Stop} (h : Follows S m m') (scope : ScopeId)
    (body rest : List Value) (next : Value → Run Value) (hexcused : S.excuses stop) :
    Run.Follows S (Value.rename S.new) (do let _ ← m.evalBody scope body; throw stop)
      (do next (← m'.evalBody scope (body.map (Value.rename S.new) ++ rest))) := by
  unfold Machine.evalBody
  rw [lastOf_append, bind_assoc]
  exact follows_bind (h.evalBody scope body) fun _ => follows_excused hexcused

/-- Source that is read has no identities. -/
theorem Follows.evalTokens (h : Follows S m m') (scope : ScopeId) (tokens : List Token) :
    Run.Follows S (Value.rename S.new) (m.evalTokens scope tokens)
      (m'.evalTokens scope tokens) := by
  have hsource : ∀ trees : List Value, (∀ tree ∈ trees, tree.IsSyntax) →
      trees.map (Value.rename S.new) = trees := by
    intro trees htrees
    rw [List.map_congr_left fun tree htree => Value.rename_of_isSyntax (htrees tree htree),
      List.map_id']
  have htrees := hsource (readAll m.depth tokens).1 fun tree htree => isSyntax_of_mem_readAll htree
  have hstop := carried?_of_readAll m.depth tokens
  have hfurther := readMany_further h.depth tokens.length tokens
  unfold Machine.evalTokens
  unfold readAll at htrees hstop ⊢
  generalize readMany m.depth tokens.length tokens = found at htrees hstop hfurther ⊢
  generalize readMany m'.depth tokens.length tokens = found' at hfurther ⊢
  obtain ⟨trees, ending⟩ := found
  obtain ⟨trees', ending'⟩ := found'
  rcases hfurther with heq | ⟨hexcused, hdeep, rest, hrest⟩
  · cases heq
    have hbody := h.evalBody scope trees
    rw [htrees] at hbody
    apply follows_bind hbody
    intro result
    cases ending with
    | none => exact follows_value
    | some stop => exact follows_stop (hstop stop rfl)
  · obtain rfl : ending = some .tooDeep := hdeep
    obtain rfl : trees ++ rest = trees' := hrest
    have hbody := fun next => h.evalBody_excused scope trees rest next hexcused
    rw [htrees] at hbody
    exact hbody _

theorem Follows.evalText (h : Follows S m m') (scope : ScopeId) (source : String) :
    Run.Follows S (Value.rename S.new) (m.evalText scope source) (m'.evalText scope source) :=
  h.evalTokens scope (tokenize source)

end Machine

/-! ## Numbers of arguments -/

/-- The second native answers the first. -/
def Native.Follows (S : Simulation) (n n' : Native) : Prop :=
  ∀ arguments, Run.Follows S (Value.rename S.new) (n.call arguments)
    (n'.call (arguments.map (Value.rename S.new)))

namespace Native

open Run

variable {count : ArgumentCount}

theorem follows_miscount (arguments : List Value) :
    Run.Follows S (Value.rename S.new) (Run.fault (count.fault arguments.length))
      (Run.fault (count.fault (arguments.map (Value.rename S.new)).length)) := by
  rw [List.length_map]
  exact follows_fault

theorem follows_nullary {action action' : Run Value}
    (h : Run.Follows S (Value.rename S.new) action action') :
    Follows S (nullary count action) (nullary count action') := by
  intro arguments
  cases arguments with
  | nil => exact h
  | cons a rest => exact follows_miscount (a :: rest)

theorem follows_unary {action action' : Value → Run Value}
    (h : ∀ a, Run.Follows S (Value.rename S.new) (action a) (action' (a.rename S.new))) :
    Follows S (unary count action) (unary count action') := by
  intro arguments
  rcases arguments with _ | ⟨a, _ | ⟨b, rest⟩⟩
  · exact follows_miscount []
  · exact h a
  · exact follows_miscount (a :: b :: rest)

theorem follows_binary {action action' : Value → Value → Run Value}
    (h : ∀ a b, Run.Follows S (Value.rename S.new) (action a b)
      (action' (a.rename S.new) (b.rename S.new))) :
    Follows S (binary count action) (binary count action') := by
  intro arguments
  rcases arguments with _ | ⟨a, _ | ⟨b, _ | ⟨c, rest⟩⟩⟩
  · exact follows_miscount []
  · exact follows_miscount [a]
  · exact h a b
  · exact follows_miscount (a :: b :: c :: rest)

theorem follows_ternary {action action' : Value → Value → Value → Run Value}
    (h : ∀ a b c, Run.Follows S (Value.rename S.new) (action a b c)
      (action' (a.rename S.new) (b.rename S.new) (c.rename S.new))) :
    Follows S (ternary count action) (ternary count action') := by
  intro arguments
  rcases arguments with _ | ⟨a, _ | ⟨b, _ | ⟨c, _ | ⟨d, rest⟩⟩⟩⟩
  · exact follows_miscount []
  · exact follows_miscount [a]
  · exact follows_miscount [a, b]
  · exact h a b c
  · exact follows_miscount (a :: b :: c :: d :: rest)

theorem follows_variadic {action action' : List Value → Run Value}
    (h : ∀ arguments, Run.Follows S (Value.rename S.new) (action arguments)
      (action' (arguments.map (Value.rename S.new)))) :
    Follows S (variadic action) (variadic action') := by
  intro arguments
  have hcall : ∀ (action : List Value → Run Value) arguments,
      (variadic action).call arguments = action arguments := by
    intro action arguments
    rcases arguments with _ | ⟨a, _ | ⟨b, _ | ⟨c, _ | ⟨d, rest⟩⟩⟩⟩ <;> rfl
  rw [hcall, hcall]
  exact h arguments

theorem follows_attemptOne {attempt attempt' : Value → Attempt Value}
    (h : ∀ a, Attempt.Follows S (Value.rename S.new) (attempt a) (attempt' (a.rename S.new))) :
    Follows S (attemptOne count attempt) (attemptOne count attempt') :=
  follows_unary fun a => follows_ofAttempt (h a)

theorem follows_attemptTwo {attempt attempt' : Value → Value → Attempt Value}
    (h : ∀ a b, Attempt.Follows S (Value.rename S.new) (attempt a b)
      (attempt' (a.rename S.new) (b.rename S.new))) :
    Follows S (attemptTwo count attempt) (attemptTwo count attempt') :=
  follows_binary fun a b => follows_ofAttempt (h a b)

theorem follows_attemptAll {attempt attempt' : List Value → Attempt Value}
    (h : ∀ arguments, Attempt.Follows S (Value.rename S.new) (attempt arguments)
      (attempt' (arguments.map (Value.rename S.new)))) :
    Follows S (attemptAll attempt) (attemptAll attempt') :=
  follows_variadic fun arguments => follows_ofAttempt (h arguments)

theorem follows_question {parameter callee : String} {answer : Value → Bool}
    (h : ∀ a, answer (a.rename S.new) = answer a) :
    Follows S (question parameter answer callee) (question parameter answer callee) := by
  apply follows_unary
  intro a
  rw [h]
  exact follows_plain rfl

end Native

/-! ## Natives that invoke procedures -/

namespace Calling

open Run

theorem follows_invoke (h : m.Follows S m') (procedure : Value) (arguments : List Value) :
    Run.Follows S (Value.rename S.new) (invoke m procedure arguments)
      (invoke m' (procedure.rename S.new) (arguments.map (Value.rename S.new))) := by
  apply follows_ite (by rw [Value.isCallable_rename])
  · exact h.invoke procedure arguments
  · exact h.complain procedure fun _ => rfl

theorem follows_elementsOf (h : m.Follows S m') (list : Value) :
    Run.Follows S (List.map (Value.rename S.new)) (elementsOf m list)
      (elementsOf m' (list.rename S.new)) :=
  follows_ofAttempt (Sequence.follows_elements h.depth list)

theorem follows_map (h : m.Follows S m') (procedure list : Value) :
    Run.Follows S (Value.rename S.new) (map m procedure list)
      (map m' (procedure.rename S.new) (list.rename S.new)) := by
  apply follows_bind (follows_elementsOf h list)
  intro items
  apply follows_bind (follows_mapM fun item _ => follows_invoke h procedure [item])
  exact fun results => follows_newList results

theorem follows_filter (h : m.Follows S m') (procedure list : Value) :
    Run.Follows S (Value.rename S.new) (filter m procedure list)
      (filter m' (procedure.rename S.new) (list.rename S.new)) := by
  apply follows_bind (follows_elementsOf h list)
  intro items
  have hkept : Run.Follows S (List.map (Value.rename S.new))
      (items.filterM fun item => return (← invoke m procedure [item]).isTruthy)
      ((items.map (Value.rename S.new)).filterM fun item =>
        return (← invoke m' (procedure.rename S.new) [item]).isTruthy) := by
    apply follows_filterM
    intro item _
    apply follows_bind (follows_invoke h procedure [item])
    exact fun result => follows_pure (Value.isTruthy_rename result)
  exact follows_bind hkept fun kept => follows_newList kept

theorem follows_reduce (h : m.Follows S m') (procedure initial list : Value) :
    Run.Follows S (Value.rename S.new) (reduce m procedure initial list)
      (reduce m' (procedure.rename S.new) (initial.rename S.new) (list.rename S.new)) := by
  apply follows_bind (follows_elementsOf h list)
  intro items
  exact follows_foldlM fun total item _ => follows_invoke h procedure [total, item]

theorem follows_forEach (h : m.Follows S m') (procedure list : Value) :
    Run.Follows S (Value.rename S.new) (forEach m procedure list)
      (forEach m' (procedure.rename S.new) (list.rename S.new)) := by
  apply follows_bind (follows_elementsOf h list)
  intro items
  have hsteps : Run.Follows S id
      (items.forM fun item => do let _ ← invoke m procedure [item])
      ((items.map (Value.rename S.new)).forM fun item => do
        let _ ← invoke m' (procedure.rename S.new) [item]) := by
    apply follows_forM
    intro item _
    exact follows_bind (follows_invoke h procedure [item]) fun _ => follows_pure rfl
  exact follows_bind hsteps fun _ => follows_plain rfl

theorem follows_apply (h : m.Follows S m') (procedure list : Value) :
    Run.Follows S (Value.rename S.new) (apply m procedure list)
      (apply m' (procedure.rename S.new) (list.rename S.new)) := by
  apply follows_bind (follows_elementsOf h list)
  exact fun items => follows_invoke h procedure items

theorem follows_makeCallback (h : m.Follows S m') (procedure : Value) :
    Run.Follows S (Value.rename S.new) (makeCallback m procedure)
      (makeCallback m' (procedure.rename S.new)) := by
  apply follows_ite (by rw [Value.isCallable_rename])
  · exact follows_new fun _ => rfl
  · exact h.complain procedure fun _ => rfl

end Calling

/-! ## Natives that build values and bind names -/

namespace Building

open Run

theorem follows_part {callee : String} {choose : Value → Value → Value}
    (hchoose : ∀ head tail, choose (head.rename S.new) (tail.rename S.new) =
      (choose head tail).rename S.new) (h : m.Follows S m') (v : Value) :
    Run.Follows S (Value.rename S.new) (part m callee choose v)
      (part m' callee choose (v.rename S.new)) := by
  have hother : Run.Follows S (Value.rename S.new)
      (do Run.fail (.wrongType (.notPair callee (← m.text v))))
      (do Run.fail (.wrongType (.notPair callee (← m'.text (v.rename S.new))))) :=
    h.complain v fun _ => rfl
  cases v with
  | pair cell head tail => exact follows_pure (hchoose head tail)
  | nil | undefined | bool | int | float | string | symbol | identifier | form | embedded
  | procedure | native | callback => exact hother

theorem follows_append (h : m.Follows S m') (lists : List Value) :
    Run.Follows S (Value.rename S.new) (append m lists)
      (append m' (lists.map (Value.rename S.new))) := by
  unfold append
  rw [List.getLast?_map, ← List.map_dropLast]
  cases lists.getLast? with
  | none => exact follows_plain rfl
  | some last =>
    apply follows_bind (follows_ofAttempt (Sequence.follows_elementsOfAll h.depth lists.dropLast))
    exact fun items => follows_newChain items last

theorem follows_plainText (h : m.Follows S m') (v : Value) :
    Run.Follows S id (plainText m v) (plainText m' (v.rename S.new)) := by
  have hother := h.text v
  cases v with
  | string text => exact follows_pure rfl
  | nil | undefined | bool | int | float | symbol | identifier | form | embedded | pair
  | procedure | native | callback => exact hother

theorem follows_plainTexts (h : m.Follows S m') (arguments : List Value) :
    Run.Follows S id (arguments.mapM (plainText m))
      ((arguments.map (Value.rename S.new)).mapM (plainText m')) := by
  have hrow := follows_mapM fun v (_ : v ∈ arguments) => follows_plainText h v
  rw [List.map_id_fun] at hrow
  exact hrow

theorem follows_stringAppend (h : m.Follows S m') (arguments : List Value) :
    Run.Follows S (Value.rename S.new) (stringAppend m arguments)
      (stringAppend m' (arguments.map (Value.rename S.new))) := by
  apply follows_bind (follows_plainTexts h arguments)
  exact fun _ => follows_plain rfl

theorem follows_print (h : m.Follows S m') (arguments : List Value) :
    Run.Follows S (Value.rename S.new) (print m arguments)
      (print m' (arguments.map (Value.rename S.new))) := by
  apply follows_bind (follows_plainTexts h arguments)
  intro texts
  exact follows_bind (Run.follows_print _) fun _ => follows_plain rfl

theorem follows_numberToString (h : m.Follows S m') (v : Value) :
    Run.Follows S (Value.rename S.new) (numberToString m v)
      (numberToString m' (v.rename S.new)) := by
  apply follows_bind (follows_ofAttempt (Arithmetic.follows_numbers h.depth "number->string" [v]))
  intro _
  exact follows_bind (h.text v) fun _ => follows_plain rfl

theorem follows_stringToNumber (h : m.Follows S m') (v : Value) :
    Run.Follows S (Value.rename S.new) (stringToNumber m v)
      (stringToNumber m' (v.rename S.new)) := by
  have hother : Run.Follows S (Value.rename S.new)
      (do Run.fail (.wrongType (.notString "string->number" (← m.text v))))
      (do Run.fail (.wrongType (.notString "string->number" (← m'.text (v.rename S.new))))) :=
    h.complain v fun _ => rfl
  cases v with
  | string text =>
    rw [Value.rename, stringToNumber, stringToNumber]
    cases parseNumber? text.toList with
    | some number => exact follows_plain rfl
    | none => exact h.complain (.string text) fun _ => rfl
  | nil | undefined | bool | int | float | symbol | identifier | form | embedded | pair
  | procedure | native | callback => exact hother

theorem follows_setGlobal (h : m.Follows S m') (scope : ScopeId) (target value : Value) :
    Run.Follows S (Value.rename S.new) (setGlobal m scope target value)
      (setGlobal m' scope (target.rename S.new) (value.rename S.new)) := by
  have hother : Run.Follows S (Value.rename S.new)
      (do Run.fail (.wrongType (.notName "set-global" (← m.text target))))
      (do Run.fail (.wrongType (.notName "set-global" (← m'.text (target.rename S.new))))) :=
    h.complain target fun _ => rfl
  have hbind : ∀ name, Run.Follows S (Value.rename S.new)
      (do Run.bind ((← get).rootOf scope) name value; return value)
      (do Run.bind ((← get).rootOf scope) name (value.rename S.new)
          return value.rename S.new) := by
    intro name
    let next (value : Value) (root : ScopeId) : Run Value := do
      Run.bind root name value
      return value
    apply follows_read (g := id) (·.rootOf scope) (next value) (next (value.rename S.new)) S.rootOf
    exact fun root => follows_bind (follows_bindName root name value) fun _ => follows_value
  cases target with
  | symbol name | string name => exact hbind name
  | nil | undefined | bool | int | float | identifier | form | embedded | pair | procedure
  | native | callback => exact hother

end Building

/-! ## All operations -/

open Attempt Native

/-- A value without parts, from an attempt of any kind. -/
theorem Attempt.Follows.answer {α : Type} {attempt attempt' : Attempt α} {f : α → Value}
    (h : attempt.Follows S id attempt') (hf : ∀ a, (f a).isPlain = true) :
    Attempt.Follows S (Value.rename S.new) (attempt >>= fun a => pure (f a))
      (attempt' >>= fun a => pure (f a)) :=
  follows_bind h fun a => follows_ok (Value.rename_of_isPlain (hf a)).symm

/-- A native that computes one value without parts from one argument. -/
theorem follows_compute {α : Type} {count : ArgumentCount} {attempt : Value → Attempt α}
    {f : α → Value} (h : ∀ a, (attempt a).Silent)
    (hrename : ∀ a, attempt (a.rename S.new) = attempt a) (hf : ∀ a, (f a).isPlain = true) :
    Native.Follows S (attemptOne count fun a => attempt a >>= fun b => pure (f b))
      (attemptOne count fun a => attempt a >>= fun b => pure (f b)) := by
  apply follows_attemptOne
  intro a
  rw [hrename]
  exact (follows_silent (h a)).answer hf

/-- A native that first takes its arguments as numbers. -/
theorem follows_computeNumbers {α : Type} {name : String} {attempt : List Number → Attempt α}
    {f : α → Value} (hm : m.Follows S m') (h : ∀ operands, (attempt operands).Silent)
    (hf : ∀ a, (f a).isPlain = true) :
    Native.Follows S
      (attemptAll fun arguments =>
        return f (← attempt (← Arithmetic.numbers m.depth name arguments)))
      (attemptAll fun arguments =>
        return f (← attempt (← Arithmetic.numbers m'.depth name arguments))) := by
  apply follows_attemptAll
  intro arguments
  apply follows_bind (Arithmetic.follows_numbers hm.depth name arguments)
  exact fun operands => (follows_silent (h operands)).answer hf

theorem follows_remainderOf (h : m.Follows S m') {name callee : String}
    {rest : Number → Number → Attempt Float} (hrest : ∀ a b, (rest a b).Silent) :
    Native.Follows S (remainderOf m name callee rest) (remainderOf m' name callee rest) := by
  apply follows_attemptTwo
  intro a b
  apply follows_bind (Arithmetic.follows_number h.depth name a)
  intro dividend
  apply follows_bind (Arithmetic.follows_number h.depth name b)
  exact fun divisor => (follows_silent (hrest dividend divisor)).answer fun _ => rfl

theorem follows_comparison (h : m.Follows S m') (operator : Comparison) :
    Native.Follows S (comparison m operator) (comparison m' operator) := by
  apply follows_attemptAll
  intro arguments
  exact (follows_chainHolds (operator.follows_holds h.depth) arguments).answer fun _ => rfl

theorem follows_extremumOf (h : m.Follows S m') (callee : String) (operator : Comparison) :
    Native.Follows S (attemptAll (extremum callee (operator.holds m.depth)))
      (attemptAll (extremum callee (operator.holds m'.depth))) :=
  follows_attemptAll fun arguments => follows_extremum (operator.follows_holds h.depth) arguments

theorem follows_random {count : ArgumentCount} :
    Native.Follows S
      (.unary count fun a => do
        let draw ← modifyGet Store.draw
        return .float (← Run.ofAttempt (Arithmetic.scaleBy draw a)))
      (.unary count fun a => do
        let draw ← modifyGet Store.draw
        return .float (← Run.ofAttempt (Arithmetic.scaleBy draw a))) := by
  apply follows_unary
  intro a
  apply Run.follows_bind Run.follows_draw
  intro draw
  rw [id_eq, Arithmetic.scaleBy_rename]
  apply Run.follows_bind (Run.follows_ofAttempt (follows_silent (Arithmetic.silent_scaleBy draw a)))
  exact fun _ => Run.follows_plain rfl

theorem follows_range (h : m.Follows S m') {count : ArgumentCount} :
    Native.Follows S
      (.binary count fun start stop => do
        Run.newList (← Run.ofAttempt (Sequence.countUp m.depth m.rounds start stop)))
      (.binary count fun start stop => do
        Run.newList (← Run.ofAttempt (Sequence.countUp m'.depth m'.rounds start stop))) := by
  apply follows_binary
  intro start stop
  apply Run.follows_bind
    (Run.follows_ofAttempt (Sequence.follows_countUp h.depth h.rounds start stop))
  exact fun items => Run.follows_newList items

theorem follows_reverse (h : m.Follows S m') {count : ArgumentCount} :
    Native.Follows S
      (.unary count fun list => do Run.newList (← Calling.elementsOf m list).reverse)
      (.unary count fun list => do Run.newList (← Calling.elementsOf m' list).reverse) := by
  apply follows_unary
  intro list
  apply Run.follows_bind (Calling.follows_elementsOf h list)
  intro items
  rw [← List.map_reverse]
  exact Run.follows_newList items.reverse

theorem Primitive.follows_native (h : m.Follows S m') (primitive : Primitive) :
    Native.Follows S (primitive.native m) (primitive.native m') := by
  cases primitive with
  | absolute =>
    apply follows_attemptOne
    intro a
    rw [Arithmetic.absolute_rename]
    exact follows_plain (Arithmetic.plain_absolute a)
  | maximum => exact follows_extremumOf h "max" .greater
  | minimum => exact follows_extremumOf h "min" .less
  | squareRoot =>
    exact follows_compute Arithmetic.silent_squareRoot Arithmetic.squareRoot_rename fun _ => rfl
  | sine =>
    exact follows_compute (Arithmetic.silent_bounded .sin) (Arithmetic.bounded_rename .sin)
      fun _ => rfl
  | cosine =>
    exact follows_compute (Arithmetic.silent_bounded .cos) (Arithmetic.bounded_rename .cos)
      fun _ => rfl
  | power =>
    apply follows_attemptTwo
    intro a b
    rw [Arithmetic.power_rename]
    exact (follows_silent (Arithmetic.silent_power a b)).answer fun _ => rfl
  | round =>
    exact follows_compute Arithmetic.silent_rounded Arithmetic.rounded_rename fun _ => rfl
  | floor | ceiling =>
    exact follows_compute (Arithmetic.silent_integral _) (Arithmetic.integral_rename _)
      fun _ => rfl
  | radians =>
    exact follows_compute Arithmetic.silent_radians Arithmetic.radians_rename fun _ => rfl
  | random => exact follows_random
  | add => exact follows_computeNumbers h Arithmetic.silent_sum fun _ => rfl
  | subtract =>
    exact follows_computeNumbers h Arithmetic.silent_difference Number.isPlain_toValue
  | multiply => exact follows_computeNumbers h Arithmetic.silent_product fun _ => rfl
  | divide => exact follows_computeNumbers h Arithmetic.silent_quotient Number.isPlain_toValue
  | modulo => exact follows_remainderOf h Arithmetic.silent_remainder
  | floorModulo => exact follows_remainderOf h Arithmetic.silent_floorRemainder
  | negate =>
    apply follows_attemptOne
    intro a
    rw [Arithmetic.negate_rename]
    exact follows_plain (Arithmetic.plain_negate a)
  | numericEqual =>
    apply follows_attemptAll
    intro arguments
    have hequals := fun a b => (Value.finds_equals h.depth a b).orTooDeep
    exact (follows_chainHolds hequals arguments).answer fun _ => rfl
  | less => exact follows_comparison h .less
  | greater => exact follows_comparison h .greater
  | lessEqual => exact follows_comparison h .lessEqual
  | greaterEqual => exact follows_comparison h .greaterEqual
  | same =>
    apply follows_attemptTwo
    exact fun a b => (Value.finds_same h.depth a b).orTooDeep.answer fun _ => rfl
  | equal =>
    apply follows_attemptTwo
    exact fun a b => (Value.finds_equal h.depth a b).orTooDeep.answer fun _ => rfl
  | not => exact follows_question fun a => by rw [Value.isTruthy_rename]
  | isNull | isString | isSymbol | isPair => exact follows_question fun a => by cases a <;> rfl
  | isNumber => exact follows_question fun a => by rw [Value.ofValue?_rename]
  | isProcedure => exact follows_question Value.isCallable_rename
  | isList => exact follows_question Value.isProperList_rename
  | cons => exact follows_binary Run.follows_newPair
  | head => exact follows_unary (Building.follows_part (fun _ _ => rfl) h)
  | tail => exact follows_unary (Building.follows_part (fun _ _ => rfl) h)
  | list => exact follows_variadic Run.follows_newList
  | length => exact follows_attemptOne (Sequence.follows_length h.depth)
  | listRef => exact follows_attemptTwo (Sequence.follows_item h.depth)
  | append => exact follows_variadic (Building.follows_append h)
  | range => exact follows_range h
  | sum =>
    apply follows_attemptOne
    intro list
    apply follows_bind (Sequence.follows_elements h.depth list)
    intro items
    apply follows_bind (Arithmetic.follows_numbers h.depth "+" items)
    exact fun operands => (follows_silent (Arithmetic.silent_sum operands)).answer fun _ => rfl
  | map => exact follows_binary (Calling.follows_map h)
  | filter => exact follows_binary (Calling.follows_filter h)
  | reduce => exact follows_ternary (Calling.follows_reduce h)
  | reverse => exact follows_reverse h
  | last => exact follows_attemptOne (Sequence.follows_last h.depth)
  | forEach => exact follows_binary (Calling.follows_forEach h)
  | apply => exact follows_binary (Calling.follows_apply h)
  | stringAppend => exact follows_variadic (Building.follows_stringAppend h)
  | numberToString => exact follows_unary (Building.follows_numberToString h)
  | stringToNumber => exact follows_unary (Building.follows_stringToNumber h)
  | makeCallback => exact follows_unary (Calling.follows_makeCallback h)
  | print => exact follows_variadic (Building.follows_print h)

/-! ## All natives -/

/-- Host functions that do not depend on identities but for telling objects apart, and that do not
catch the end of a limit.  Over machines that follow each other they then follow themselves. -/
class Hosts.Uniform (hosts : Hosts) : Prop where
  follows : ∀ {S : Simulation} {m m' : Machine}, m.Follows S m' → ∀ function,
    Native.Follows S (hosts.native function m) (hosts.native function m')

/-- Over machines that follow each other every native follows itself. -/
theorem Operation.follows_native [hosts.Uniform] (h : m.Follows S m') (operation : Operation) :
    Native.Follows S (operation.native hosts m) (operation.native hosts m') := by
  cases operation with
  | primitive primitive => exact primitive.follows_native h
  | host function => exact Hosts.Uniform.follows h function
  | setGlobal scope => exact follows_binary (Building.follows_setGlobal h scope)

theorem follows_callbackNative (h : m.Follows S m') (target : Value) :
    Native.Follows S (callbackNative m target) (callbackNative m' (target.rename S.new)) :=
  follows_nullary (h.invoke target [])

end TinyLisp
