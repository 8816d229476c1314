import TinyLisp.Proofs.Evaluation.Coupling
import TinyLisp.Proofs.Syntax

/-!
# What attempts give

An attempt computes with values and leaves the store alone.  An attempt that
fails carries no value, and one that gives values gives parts of its arguments
or values without parts.

There are five groups.

* `Attempt.Yields`: what holds of the result of an attempt, with one rule for
  each way of putting attempts together.
* `ReadsAs`: what holds of all trees that are read, in the first place that they
  are syntax trees.
* Texts of values, arithmetic and order: their results hold no values.
* Lists: `yields_elements` and what is read from lists.
* `Run.coupled_ofAttempt`: attempts as runs, coupled with themselves.
-/

namespace TinyLisp

/-! ## Attempts -/

namespace Attempt

variable {α β : Type}

/-- The result satisfies `P`, and a failure carries no value. -/
inductive Yields (P : α → Prop) : Attempt α → Prop where
  | ok {a : α} (h : P a) : Yields P (.ok a)
  | error {stop : Stop} (h : stop.carried? = none) : Yields P (.error stop)

/-- A failure carries no value. -/
abbrev Silent (attempt : Attempt α) : Prop :=
  attempt.Yields fun _ => True

variable {P : α → Prop} {Q : β → Prop}

theorem yields_fault {fault : Fault} : Yields P (Attempt.fault fault) := .error rfl

theorem yields_wrongType {problem : TypeProblem} : Yields P (wrongType problem) := .error rfl

theorem yields_tooDeep : Yields P (tooDeep : Attempt α) := .error rfl

theorem yields_bind {attempt : Attempt α} {next : α → Attempt β} (h : attempt.Yields P)
    (hnext : ∀ a, P a → (next a).Yields Q) : (attempt >>= next).Yields Q := by
  cases h with
  | ok h => exact hnext _ h
  | error h => exact .error h

/-- A first attempt whose result does not matter. -/
theorem Silent.bind {attempt : Attempt α} {next : α → Attempt β} (h : attempt.Silent)
    (hnext : ∀ a, (next a).Yields Q) : (attempt >>= next).Yields Q :=
  yields_bind h fun a _ => hnext a

theorem Silent.map {attempt : Attempt α} (h : attempt.Silent) (f : α → β) :
    Silent (Except.map f attempt) := by
  cases h with
  | ok h => exact .ok trivial
  | error h => exact .error h

theorem Yields.silent {attempt : Attempt α} (h : attempt.Yields P) : attempt.Silent := by
  cases h with
  | ok h => exact .ok trivial
  | error h => exact .error h

theorem silent_orFault {fault : Fault} (result : Option α) : (orFault fault result).Silent := by
  cases result with
  | none => exact .error rfl
  | some a => exact .ok trivial

theorem silent_orTooDeep (result : Option α) : (orTooDeep result).Silent := by
  cases result with
  | none => exact .error rfl
  | some a => exact .ok trivial

theorem yields_mapM {f : α → Attempt β} {items : List α}
    (h : ∀ item ∈ items, (f item).Yields Q) :
    (items.mapM f).Yields fun results => ∀ result ∈ results, Q result := by
  induction items with
  | nil => exact .ok fun result hresult => by cases hresult
  | cons item items ih =>
    rw [List.mapM_cons]
    apply yields_bind (h item (by simp))
    intro result hresult
    apply yields_bind (ih fun item hitem => h item (by simp [hitem]))
    intro results hresults
    exact .ok (List.forall_mem_cons.2 ⟨hresult, hresults⟩)

theorem silent_mapM {f : α → Attempt β} {items : List α} (h : ∀ item ∈ items, (f item).Silent) :
    (items.mapM f).Silent :=
  (yields_mapM h).silent

theorem yields_foldlM {f : α → β → Attempt α} {items : List β} {a : α} (ha : P a)
    (h : ∀ item ∈ items, ∀ a, P a → (f a item).Yields P) : (items.foldlM f a).Yields P := by
  induction items generalizing a with
  | nil => exact .ok ha
  | cons item items ih =>
    rw [List.foldlM_cons]
    apply yields_bind (h item (by simp) a ha)
    intro b hb
    exact ih hb fun item hitem => h item (by simp [hitem])

theorem silent_foldlM {f : α → β → Attempt α} {items : List β} {a : α}
    (h : ∀ item ∈ items, ∀ a, (f a item).Silent) : (items.foldlM f a).Silent :=
  yields_foldlM trivial fun item hitem a _ => h item hitem a

end Attempt

open Attempt

/-! ## Reading -/

/-- What holds of all trees that are read from tokens with `Q`. -/
structure ReadsAs (Q : Token → Prop) (P : Value → Prop) : Prop where
  string : ∀ text, P (.string text)
  atom : ∀ text, Q (.atom text) → P (readAtom text)
  form : ∀ items, (∀ item ∈ items, P item) → P (.form items)

namespace ReadsAs

variable {P : Value → Prop} {Q : Token → Prop}

theorem readInside (h : ReadsAs Q P) {room : Nat} {items : List Value} {outer : List (List Value)}
    {tokens : List Token} (htokens : ∀ token ∈ tokens, Q token) (hitems : ∀ item ∈ items, P item)
    (houter : ∀ row ∈ outer, ∀ item ∈ row, P item) :
    Yields P (TinyLisp.readInside room items outer tokens).1 ∧
      ∀ token ∈ (TinyLisp.readInside room items outer tokens).2, Q token := by
  have hform : ∀ items : List Value, (∀ item ∈ items, P item) → P (.form items.reverse) :=
    fun items hitems => h.form _ fun item hitem => hitems item (List.mem_reverse.1 hitem)
  fun_induction TinyLisp.readInside room items outer tokens with
  | case1 => exact ⟨.error rfl, fun token htoken => by cases htoken⟩
  | case2 => exact ⟨.ok (hform _ hitems), (List.forall_mem_cons.1 htokens).2⟩
  | case3 room items rest around outer ih =>
    obtain ⟨haround, houter⟩ := List.forall_mem_cons.1 houter
    exact ih (List.forall_mem_cons.1 htokens).2
      (List.forall_mem_cons.2 ⟨hform _ hitems, haround⟩) houter
  | case4 => exact ⟨.error rfl, (List.forall_mem_cons.1 htokens).2⟩
  | case5 items outer rest room ih =>
    exact ih (List.forall_mem_cons.1 htokens).2 (by simp)
      (List.forall_mem_cons.2 ⟨hitems, houter⟩)
  | case6 room items outer text rest ih =>
    exact ih (List.forall_mem_cons.1 htokens).2
      (List.forall_mem_cons.2 ⟨h.string text, hitems⟩) houter
  | case7 room items outer text rest ih =>
    obtain ⟨htoken, htokens⟩ := List.forall_mem_cons.1 htokens
    exact ih htokens (List.forall_mem_cons.2 ⟨h.atom text htoken, hitems⟩) houter

theorem readOne (h : ReadsAs Q P) (limit : Nat) {tokens : List Token}
    (htokens : ∀ token ∈ tokens, Q token) :
    Yields P (TinyLisp.readOne limit tokens).1 ∧
      ∀ token ∈ (TinyLisp.readOne limit tokens).2, Q token := by
  cases tokens with
  | nil => exact ⟨.error rfl, htokens⟩
  | cons token tokens =>
    obtain ⟨htoken, hrest⟩ := List.forall_mem_cons.1 htokens
    cases token with
    | closing => exact ⟨.error rfl, hrest⟩
    | opening => exact h.readInside hrest (by simp) (by simp)
    | string text => exact ⟨.ok (h.string text), hrest⟩
    | atom text => exact ⟨.ok (h.atom text htoken), hrest⟩

/-- The expressions of a source, and what ends the reading, which carries no value. -/
theorem readMany (h : ReadsAs Q P) {limit count : Nat} {tokens : List Token}
    (htokens : ∀ token ∈ tokens, Q token) :
    (∀ tree ∈ (TinyLisp.readMany limit count tokens).1, P tree) ∧
      ∀ stop, (TinyLisp.readMany limit count tokens).2 = some stop → stop.carried? = none := by
  fun_induction TinyLisp.readMany limit count tokens with
  | case1 => exact ⟨by simp, by simp⟩
  | case2 => exact ⟨by simp, by simp⟩
  | case3 count token tokens stop rest hread =>
    have hone := (h.readOne limit htokens).1
    rw [hread] at hone
    cases hone with
    | error hcarried =>
      refine ⟨by simp, ?_⟩
      intro stop' hstop
      cases hstop
      exact hcarried
  | case4 count token tokens tree rest hread trees stop hrest ih =>
    obtain ⟨hone, hleft⟩ := h.readOne limit htokens
    rw [hread] at hone hleft
    obtain ⟨htrees, hstop⟩ := ih hleft
    rw [hrest] at htrees hstop
    cases hone with
    | ok htree => exact ⟨List.forall_mem_cons.2 ⟨htree, htrees⟩, hstop⟩

end ReadsAs

/-- Reading gives syntax trees, whatever the tokens are. -/
theorem readsAs_isSyntax : ReadsAs (fun _ => True) Value.IsSyntax where
  string := .string
  atom text _ := by
    unfold readAtom
    split
    · exact .float _
    · exact .identifier _
  form _ := .form

/-- The expressions of a source are syntax trees. -/
theorem isSyntax_of_mem_readAll {limit : Nat} {tokens : List Token} {tree : Value}
    (h : tree ∈ (readAll limit tokens).1) : tree.IsSyntax :=
  (readsAs_isSyntax.readMany fun _ _ => trivial).1 tree h

/-- What ends the reading of a source carries no value. -/
theorem carried?_of_readAll (limit : Nat) (tokens : List Token) :
    ∀ stop, (readAll limit tokens).2 = some stop → stop.carried? = none :=
  (readsAs_isSyntax.readMany fun _ _ => trivial).2

/-! ## Texts -/

theorem silent_writeInteger (n : Int) : (writeInteger n).Silent := by
  unfold writeInteger
  generalize Nat.pow 10 longestInteger = bound
  split
  · exact .ok trivial
  · exact yields_fault

namespace Value

theorem silent_inspect (limit : Nat) (value : Value) : (value.inspect limit).Silent := by
  induction limit generalizing value with
  | zero => exact yields_tooDeep
  | succ limit ih =>
    cases value with
    | int value =>
      simp only [inspect]
      exact silent_writeInteger value
    | form items => exact (silent_mapM fun item _ => ih item).bind fun _ => .ok trivial
    | embedded identity value => exact ih value
    | pair cell head tail => exact (ih head).bind fun _ => (ih tail).bind fun _ => .ok trivial
    | nil | undefined | bool | float | string | symbol | identifier | procedure | native
    | callback => exact .ok trivial

theorem silent_write (limit : Nat) (value : Value) : (value.write limit).Silent := by
  induction limit generalizing value with
  | zero => exact yields_tooDeep
  | succ limit ih =>
    cases value with
    | int value =>
      simp only [write]
      exact silent_writeInteger value
    | form items => exact silent_inspect (limit + 1) (form items)
    | embedded identity value => exact ih value
    | pair cell head tail =>
      rw [write]
      cases (pair cell head tail).toList? with
      | some items => exact (silent_mapM fun item _ => ih item).bind fun _ => .ok trivial
      | none => exact (ih head).bind fun _ => (ih tail).bind fun _ => .ok trivial
    | nil | undefined | bool | float | string | symbol | identifier | procedure | native
    | callback => exact .ok trivial

theorem silent_text (limit : Nat) (value : Value) : (value.text limit).Silent :=
  (silent_write limit value).map String.ofList

theorem silent_inspected (limit : Nat) (value : Value) : (value.inspected limit).Silent :=
  (silent_inspect limit value).map String.ofList

end Value

/-! ## Arithmetic -/

theorem Number.silent_toDouble (number : Number) : number.toDouble.Silent := by
  cases number with
  | int value => exact silent_orFault _
  | float value => exact .ok trivial

namespace Arithmetic

theorem silent_number (depth : Nat) (name : String) (argument : Value) :
    (number depth name argument).Silent := by
  unfold number
  cases Number.ofValue? argument with
  | some number => exact .ok trivial
  | none => exact (argument.silent_text depth).bind fun _ => yields_wrongType

theorem silent_numbers (depth : Nat) (name : String) (arguments : List Value) :
    (numbers depth name arguments).Silent :=
  silent_mapM fun argument _ => silent_number depth name argument

theorem silent_sum (operands : List Number) : (sum operands).Silent :=
  silent_foldlM fun operand _ _ => operand.silent_toDouble.bind fun _ => .ok trivial

theorem silent_product (operands : List Number) : (product operands).Silent :=
  silent_foldlM fun operand _ _ => operand.silent_toDouble.bind fun _ => .ok trivial

theorem silent_minus (a b : Number) : (minus a b).Silent := by
  unfold minus
  split
  · exact .ok trivial
  · exact a.silent_toDouble.bind fun _ => b.silent_toDouble.bind fun _ => .ok trivial

theorem silent_dividedBy (a b : Number) : (dividedBy a b).Silent := by
  unfold dividedBy
  split
  · split
    · exact yields_fault
    · exact (silent_orFault _).bind fun _ => .ok trivial
  · apply a.silent_toDouble.bind
    intro dividend
    apply b.silent_toDouble.bind
    intro divisor
    split
    · exact yields_fault
    · exact .ok trivial

theorem silent_difference (operands : List Number) : (difference operands).Silent := by
  unfold difference
  split
  · exact .error rfl
  · exact .ok trivial
  · exact silent_foldlM fun operand _ total => silent_minus total operand

theorem silent_quotient (operands : List Number) : (quotient operands).Silent := by
  unfold quotient
  split
  · exact .error rfl
  · exact silent_dividedBy _ _
  · exact silent_foldlM fun operand _ total => silent_dividedBy total operand

theorem silent_remainder (a b : Number) : (remainder a b).Silent :=
  a.silent_toDouble.bind fun _ => b.silent_toDouble.bind fun _ => silent_orFault _

theorem silent_floorRemainder (a b : Number) : (floorRemainder a b).Silent :=
  b.silent_toDouble.bind fun _ => (silent_remainder a b).bind fun _ => silent_orFault _

theorem silent_real (argument : Value) : (real argument).Silent := by
  unfold real
  cases Number.ofReal? argument with
  | some number => exact number.silent_toDouble
  | none => exact yields_fault

theorem silent_squareRoot (argument : Value) : (squareRoot argument).Silent := by
  apply (silent_real argument).bind
  intro x
  split
  · exact yields_fault
  · exact .ok trivial

theorem silent_bounded (function : Float → Float) (argument : Value) :
    (bounded function argument).Silent := by
  apply (silent_real argument).bind
  intro x
  split
  · exact yields_fault
  · exact .ok trivial

theorem silent_power (base exponent : Value) : (power base exponent).Silent := by
  apply (silent_real base).bind
  intro x
  apply (silent_real exponent).bind
  intro y
  simp only
  split
  · exact .ok trivial
  · split
    · exact yields_fault
    · split
      · exact yields_fault
      · exact .ok trivial

theorem silent_radians (argument : Value) : (radians argument).Silent :=
  (silent_real argument).bind fun _ => .ok trivial

theorem silent_fraction (x : Float) : (fraction x).Silent := by
  unfold fraction
  cases Double.fraction? x with
  | some fraction => exact .ok trivial
  | none => exact yields_fault

theorem silent_integral (round : BinaryFraction → Int) (argument : Value) :
    (integral round argument).Silent := by
  unfold integral
  split
  · exact Number.silent_toDouble _
  · exact (silent_fraction _).bind fun _ => Number.silent_toDouble _
  · exact yields_fault

theorem silent_rounded (argument : Value) : (rounded argument).Silent := by
  unfold rounded
  split
  · exact (Number.silent_toDouble _).bind fun _ =>
      (silent_fraction _).bind fun _ => Number.silent_toDouble _
  · exact yields_fault
  · exact yields_fault
  · exact yields_fault

theorem silent_scaleBy (draw : Float) (argument : Value) : (scaleBy draw argument).Silent := by
  unfold scaleBy
  split
  · exact (Number.silent_toDouble _).bind fun _ => .ok trivial
  · exact yields_fault
  · exact yields_fault
  · exact yields_fault

end Arithmetic

theorem Number.isPlain_toValue (number : Number) : number.toValue.isPlain = true := by
  cases number <;> rfl

/-- A value that a native computes from numbers alone. -/
abbrev Attempt.Plain (attempt : Attempt Value) : Prop :=
  attempt.Yields fun v => v.isPlain = true

namespace Arithmetic

theorem plain_absolute (argument : Value) : (absolute argument).Plain := by
  unfold absolute
  split
  · exact .ok rfl
  · exact .ok rfl
  · exact yields_fault

theorem plain_negate (argument : Value) : (negate argument).Plain := by
  unfold negate
  split
  · exact .ok (Number.isPlain_toValue _)
  · exact yields_fault

theorem plain_successor (argument : Value) : (successor argument).Plain := by
  unfold successor
  split
  · exact .ok rfl
  · exact .ok rfl
  · exact yields_fault
  · exact yields_fault
  · exact yields_fault

end Arithmetic

/-! ## Integers -/

theorem silent_readInteger (text : String) : (readInteger text).Silent := by
  unfold readInteger
  simp only
  split
  · exact yields_fault
  · split
    · exact yields_fault
    · split
      · exact .ok trivial
      · exact yields_fault

theorem silent_truncated (value : Value) : (truncated value).Silent := by
  unfold truncated
  split
  · exact .ok trivial
  · exact (Arithmetic.silent_fraction _).bind fun _ => .ok trivial
  · exact silent_readInteger _
  · exact yields_fault

/-! ## Order -/

namespace Comparison

theorem silent_holdsOfRows {operator : Comparison} {equals holds : Value → Value → Attempt Bool}
    (hequals : ∀ a b, (equals a b).Silent) (hholds : ∀ a b, (holds a b).Silent)
    (as bs : List Value) : (operator.holdsOfRows equals holds as bs).Silent := by
  induction as generalizing bs with
  | nil => exact .ok trivial
  | cons a as ih =>
    cases bs with
    | nil => exact .ok trivial
    | cons b bs =>
      apply (hequals a b).bind
      intro same
      split
      · exact ih bs
      · exact hholds a.bare b.bare

theorem silent_holds (operator : Comparison) (limit : Nat) (a b : Value) :
    (operator.holds limit a b).Silent := by
  induction limit generalizing a b with
  | zero => exact yields_tooDeep
  | succ limit ih =>
    unfold holds
    split
    · exact .ok trivial
    · split
      · exact .ok trivial
      · exact silent_holdsOfRows (fun _ _ => silent_orTooDeep _) ih _ _
      · exact yields_fault

end Comparison

theorem silent_chainHolds {test : Value → Value → Attempt Bool} (h : ∀ a b, (test a b).Silent)
    (arguments : List Value) : (chainHolds test arguments).Silent := by
  induction arguments with
  | nil => exact .ok trivial
  | cons a rest ih =>
    cases rest with
    | nil => exact .ok trivial
    | cons b rest =>
      apply (h a b).bind
      intro passes
      split
      · exact ih
      · exact .ok trivial

/-- The best of several values is one of them. -/
theorem yields_bestOf {holds : Value → Value → Attempt Bool} (h : ∀ a b, (holds a b).Silent)
    {P : Value → Prop} {first : Value} {rest : List Value} (hfirst : P first)
    (hrest : ∀ v ∈ rest, P v) : (bestOf holds first rest).Yields P := by
  apply yields_foldlM hfirst
  intro candidate hcandidate best hbest
  apply (h candidate best).bind
  intro passes
  apply Yields.ok
  split
  · exact hrest candidate hcandidate
  · exact hbest

/-! ## Lists -/

section

variable {C : Coupling} {s : Store}

theorem value_bare {v : Value} (h : C.value s v) : C.value s v.bare := by
  induction v using Value.bare.induct with
  | case1 identity v ih => exact ih (C.value_embedded.1 h)
  | case2 v hv =>
    rw [Value.bare]
    · exact h
    · exact hv

/-- The elements of a chain of pairs and its ending. -/
theorem values_spine {v : Value} (h : C.value s v) :
    C.values s v.spine.1 ∧ C.value s v.spine.2 := by
  induction v using Value.isProperList.induct with
  | case1 cell head tail ih =>
    obtain ⟨hhead, htail⟩ := C.value_pair.1 h
    obtain ⟨hitems, hending⟩ := ih htail
    rw [Value.spine_pair]
    exact ⟨Coupling.values_cons.2 ⟨hhead, hitems⟩, hending⟩
  | case2 => exact ⟨Coupling.values_nil, h⟩
  | case3 v hpair hnil =>
    have hspine : v.spine = ([], v) := by
      rw [Value.spine, Value.spineFrom]
      · rfl
      · exact hpair
    rw [hspine]
    exact ⟨Coupling.values_nil, h⟩

theorem values_toList? {v : Value} {items : List Value} (h : C.value s v)
    (hitems : v.toList? = some items) : C.values s items := by
  have hspine := (values_spine h).1
  unfold Value.toList? at hitems
  split at hitems
  · rename_i found hfound
    cases hitems
    rw [hfound] at hspine
    exact hspine
  · cases hitems

theorem yields_candidates {v : Value} (h : C.value s v) :
    (candidates v).Yields fun found => C.values s found.1 := by
  unfold candidates
  split
  · apply Yields.ok
    intro item hitem
    obtain ⟨c, -, rfl⟩ := List.mem_map.1 hitem
    exact C.value_plain rfl
  · apply Yields.ok
    intro item hitem
    obtain ⟨part, hpart, rfl⟩ := List.mem_map.1 hitem
    exact value_bare (C.value_form.1 h part hpart)
  · exact .ok Coupling.values_nil
  · exact .ok (values_spine h).1
  · exact yields_fault

theorem yields_extremum {callee : String} {holds : Value → Value → Attempt Bool}
    (hholds : ∀ a b, (holds a b).Silent) {arguments : List Value} (h : C.values s arguments) :
    (extremum callee holds arguments).Yields (C.value s) := by
  unfold extremum
  split
  · exact yields_fault
  · apply yields_bind (yields_candidates (h _ (by simp)))
    intro found hfound
    split
    · exact yields_fault
    · obtain ⟨hfirst, hrest⟩ := Coupling.values_cons.1 hfound
      apply yields_bind (yields_bestOf hholds hfirst hrest)
      intro best hbest
      split
      · exact .ok hbest
      · exact yields_wrongType
  · obtain ⟨hfirst, hrest⟩ := Coupling.values_cons.1 h
    exact yields_bestOf hholds hfirst hrest

namespace Sequence

theorem yields_elements (depth : Nat) {v : Value} (h : C.value s v) :
    (elements depth v).Yields (C.values s) := by
  unfold elements
  split
  · exact .ok Coupling.values_nil
  · split
    · rename_i items hitems
      exact .ok (values_toList? h hitems)
    · exact yields_wrongType
  · exact (Value.silent_inspected depth _).bind fun _ => yields_wrongType

theorem plain_length (depth : Nat) {v : Value} (h : C.value s v) : (length depth v).Plain := by
  unfold length
  split
  · exact .ok rfl
  · exact (yields_elements depth h).silent.bind fun _ => .ok rfl

theorem silent_index? (index : Value) : (index? index).Silent :=
  (silent_truncated index).bind fun _ => .ok trivial

theorem silent_indexText (depth : Nat) (index : Value) : (indexText depth index).Silent := by
  unfold indexText
  split
  · exact .ok trivial
  · exact Value.silent_inspected depth _

theorem yields_item (depth : Nat) {list index : Value} (h : C.value s list) :
    (item depth list index).Yields (C.value s) := by
  apply yields_bind (yields_elements depth h)
  intro items hitems
  apply (silent_index? index).bind
  intro place
  split
  · rename_i found hfound
    obtain ⟨n, -, hn⟩ := Option.bind_eq_some_iff.1 hfound
    exact .ok (hitems found (List.mem_of_getElem? hn))
  · exact (silent_indexText depth index).bind fun _ => yields_wrongType

theorem yields_last (depth : Nat) {list : Value} (h : C.value s list) :
    (last depth list).Yields (C.value s) := by
  apply yields_bind (yields_elements depth h)
  intro items hitems
  split
  · rename_i found hfound
    exact .ok (hitems found (List.mem_of_getLast? hfound))
  · exact yields_wrongType

theorem yields_elementsOfAll (depth : Nat) {lists : List Value} (h : C.values s lists) :
    (elementsOfAll depth lists).Yields (C.values s) := by
  apply yields_bind (yields_mapM fun list hlist => yields_elements depth (h list hlist))
  intro rows hrows
  apply Yields.ok
  intro item hitem
  obtain ⟨row, hrow, hitem⟩ := List.mem_flatten.1 hitem
  exact hrows row hrow item hitem

theorem yields_countUpFrom (depth : Nat) (stop : Value) (rounds : Nat) {before : List Value}
    {current : Value} (hbefore : C.values s before) (hcurrent : C.value s current) :
    (countUpFrom depth stop rounds before current).Yields (C.values s) := by
  induction rounds generalizing before current with
  | zero => exact .error rfl
  | succ rounds ih =>
    apply (Comparison.silent_holds .less depth current stop).bind
    intro less
    split
    · apply yields_bind (Arithmetic.plain_successor current)
      intro next hnext
      exact ih (Coupling.values_cons.2 ⟨hcurrent, hbefore⟩) (C.value_plain hnext)
    · apply Yields.ok
      intro item hitem
      exact hbefore item (List.mem_reverse.1 hitem)

theorem yields_countUp (depth rounds : Nat) {start stop : Value} (hstart : C.value s start) :
    (countUp depth rounds start stop).Yields (C.values s) :=
  yields_countUpFrom depth stop rounds Coupling.values_nil hstart

end Sequence

end

/-! ## Attempts as runs -/

namespace Run

variable {α : Type} {C : Coupling} {s : Store}

theorem coupled_ofAttempt {P : Store → α → Prop} {attempt : Attempt α} (h : attempt.Yields (P s))
    (hP : ∀ t a, C.later s t → P s a → P t a) :
    Coupled C s P (ofAttempt attempt) (ofAttempt attempt) := by
  cases h with
  | ok h => exact coupled_pure fun t hlater => hP t _ hlater h
  | error h =>
    apply coupled_throw
    intro v hv
    rw [h] at hv
    cases hv

theorem coupled_attemptValue {attempt : Attempt Value} (h : attempt.Yields (C.value s)) :
    Coupled C s C.value (ofAttempt attempt) (ofAttempt attempt) :=
  coupled_ofAttempt h fun _ _ hlater => C.value_later hlater

theorem coupled_attemptValues {attempt : Attempt (List Value)} (h : attempt.Yields (C.values s)) :
    Coupled C s C.values (ofAttempt attempt) (ofAttempt attempt) :=
  coupled_ofAttempt h fun _ _ hlater => Coupling.values_later hlater

theorem coupled_silent {attempt : Attempt α} (h : attempt.Silent) :
    Coupled C s anything (ofAttempt attempt) (ofAttempt attempt) :=
  coupled_ofAttempt h fun _ _ _ => id

end Run

end TinyLisp
