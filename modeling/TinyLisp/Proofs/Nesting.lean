import TinyLisp.Proofs.Equality
import TinyLisp.Proofs.ListAlgebra

/-!
# Nesting and length

What goes into the parts of values goes down one level for each head and none for a tail.  So
the limit bounds how deep proper lists may be nested, and their lengths are free.

There are five groups.

* `Attempt.Shallow`: attempts that do not overflow, and the printers among them.
* `Value.ProperThroughout`: values whose lists are all proper.  Their heights are their head
  depths, and so they are written and compared within a limit above the head depth.
* What the natives on lists compute, as attempts that do not overflow.
* `Run.Overflows`: the stores in which a run overflows.  A row of calls overflows in one of
  the calls, and nowhere else.
* `Machine.length_never_overflows`: the printer, the comparisons and the natives together.
-/

namespace TinyLisp

variable {hosts : Hosts}

/-! ## Attempts -/

namespace Attempt

variable {α β : Type} {attempt : Attempt α}

/-- The attempt does not overflow. -/
abbrev Shallow (attempt : Attempt α) : Prop :=
  attempt.StopsFor (· ≠ .tooDeep)

theorem shallow_fault (cause : Fault) : (fault cause : Attempt α).Shallow :=
  stopsFor_error nofun

theorem shallow_wrongType (problem : TypeProblem) : (wrongType problem : Attempt α).Shallow :=
  stopsFor_error nofun

theorem shallow_orFault (cause : Fault) (result : Option α) : (orFault cause result).Shallow := by
  cases result with
  | none => exact shallow_fault cause
  | some a => exact stopsFor_ok a

theorem shallow_orTooDeep {result : Option α} (h : result ≠ none) : (orTooDeep result).Shallow := by
  cases result with
  | none => exact absurd rfl h
  | some a => exact stopsFor_ok a

end Attempt

open Attempt

namespace Value

variable {value v w : Value} {limit : Nat}

/-- The printer overflows only where the value is too high. -/
theorem shallow_write (h : value.height ≤ limit) : (value.write limit).Shallow :=
  stopsFor_write nofun (.inr h)

theorem shallow_text (h : value.height ≤ limit) : (value.text limit).Shallow :=
  (shallow_write h).map String.ofList

theorem shallow_inspected (h : value.shownHeight ≤ limit) : (value.inspected limit).Shallow :=
  (stopsFor_inspect nofun (.inr h)).map String.ofList

/-! ## Values with proper lists -/

/-- All lists in the value are proper, and it holds no source. -/
def ProperThroughout : Value → Prop
  | pair _ head tail =>
    head.ProperThroughout ∧ tail.isProperList = true ∧ tail.ProperThroughout
  | value => value.isSource = false

theorem properThroughout_of_isAtom (ha : v.isAtom = true) :
    v.ProperThroughout ↔ v.isSource = false := by
  cases v with
  | pair => cases ha
  | nil | undefined | bool | int | float | string | symbol | identifier | form | embedded
  | procedure | native | callback => rfl

namespace ProperThroughout

theorem isEvaluated (h : v.ProperThroughout) : v.IsEvaluated := by
  induction v using pairInduction with
  | atom v ha =>
    rw [IsEvaluated, atoms_of_isAtom ha, List.forall_mem_singleton]
    exact (properThroughout_of_isAtom ha).1 h
  | pair cell head tail ih ih' =>
    obtain ⟨hhead, -, htail⟩ := h
    exact forall_atoms_pair.2 ⟨ih hhead, ih' htail⟩

/-- A tail is not higher than its list, however long the list is. -/
theorem height_eq (h : v.ProperThroughout) : v.height = v.headDepth + 1 := by
  induction v using pairInduction with
  | atom v ha =>
    rw [properThroughout_of_isAtom ha] at h
    cases v with
    | pair => cases ha
    | form | embedded => cases h
    | nil | undefined | bool | int | float | string | symbol | identifier | procedure | native
    | callback => simp [height, headDepth]
  | pair cell head tail ih ih' =>
    obtain ⟨hhead, hproper, htail⟩ := h
    rw [height, if_pos hproper, ih hhead, ih' htail, headDepth]
    omega

/-- The comparison goes no deeper than the first value does. -/
theorem equal_ne_none (hv : v.ProperThroughout) (hw : w.ProperThroughout)
    (h : v.headDepth < limit) : equal limit v w ≠ none := by
  obtain ⟨limit, rfl⟩ := Nat.exists_eq_add_of_le' (Nat.zero_lt_of_lt h)
  rw [equal_eq hv.isEvaluated hw.isEvaluated]
  exact Option.ne_none_iff_exists'.2 (exists_equalBy (Nat.le_of_lt_succ h))

theorem equals_ne_none (hv : v.ProperThroughout) (hw : w.ProperThroughout)
    (h : v.headDepth < limit) : equals limit v w ≠ none := by
  obtain ⟨limit, rfl⟩ := Nat.exists_eq_add_of_le' (Nat.zero_lt_of_lt h)
  rw [equals_eq hv.isEvaluated hw.isEvaluated]
  exact Option.ne_none_iff_exists'.2 (exists_equalBy (Nat.le_of_lt_succ h))

end ProperThroughout

end Value

/-! ## What the natives compute -/

section

variable {depth : Nat} {v : Value}

theorem Value.shownHeight_of_isAtom (ha : v.isAtom = true) (hsource : v.isSource = false) :
    v.shownHeight = 1 := by
  cases v with
  | pair => cases ha
  | form | embedded => cases hsource
  | nil | undefined | bool | int | float | string | symbol | identifier | procedure | native
  | callback => rfl

/-- Only a value that is no pair is shown as no list. -/
theorem Sequence.shallow_elements (hdepth : 0 < depth) (h : v.isSource = false) :
    (elements depth v).Shallow := by
  have hshown : v.isAtom = true → (v.inspected depth).Shallow := fun ha =>
    Value.shallow_inspected (by rw [Value.shownHeight_of_isAtom ha h]; exact hdepth)
  cases v with
  | nil => exact stopsFor_ok []
  | pair cell head tail =>
    unfold elements
    cases (Value.pair cell head tail).toList? with
    | some items => exact stopsFor_ok items
    | none => exact shallow_wrongType .notProperList
  | form | embedded => cases h
  | undefined | bool | int | float | string | symbol | identifier | procedure | native
  | callback => exact (hshown rfl).bind fun _ _ => shallow_wrongType _

namespace Sequence

theorem shallow_length (hdepth : 0 < depth) (h : v.isSource = false) :
    (length depth v).Shallow := by
  have hcount : (do return count (← elements depth v).length : Attempt Value).Shallow :=
    (shallow_elements hdepth h).bind fun _ _ => stopsFor_ok _
  cases v with
  | string text => exact stopsFor_ok _
  | _ => exact hcount

theorem shallow_last (hdepth : 0 < depth) (h : v.isSource = false) : (last depth v).Shallow := by
  refine (shallow_elements hdepth h).bind fun items _ => ?_
  cases items.getLast? with
  | some item => exact stopsFor_ok item
  | none => exact shallow_wrongType .lastOfEmpty

theorem shallow_elementsOfAll (hdepth : 0 < depth) {lists : List Value}
    (h : ∀ list ∈ lists, list.isSource = false) : (elementsOfAll depth lists).Shallow :=
  (stopsFor_mapM fun list hlist => shallow_elements hdepth (h list hlist)).bind
    fun _ _ => stopsFor_ok _

theorem shallow_readInteger (text : String) : (readInteger text).Shallow := by
  unfold readInteger
  cases takeSign (text.toList.dropWhile isIntegerBlank) with
  | mk negative rest =>
    dsimp only
    cases spacedDigits? (rest.takeWhile isIntegerPart) with
    | none => exact shallow_fault _
    | some digits =>
      dsimp only
      split_ifs
      · exact shallow_fault _
      · exact stopsFor_ok _
      · exact stopsFor_ok _
      · exact shallow_fault _

theorem shallow_truncated (v : Value) : (truncated v).Shallow := by
  have hfraction (x : Float) : (Arithmetic.fraction x).Shallow := by
    unfold Arithmetic.fraction
    cases Double.fraction? x with
    | some fraction => exact stopsFor_ok fraction
    | none => exact shallow_fault _
  unfold truncated
  split
  · exact stopsFor_ok _
  · exact (hfraction _).bind fun _ _ => stopsFor_ok _
  · exact shallow_readInteger _
  · exact shallow_fault _

theorem shallow_index? (index : Value) : (index? index).Shallow :=
  (shallow_truncated index).bind fun _ _ => stopsFor_ok _

/-- What stands for an index has no parts. -/
theorem isAtom_of_index? {index : Value} {place : Option Nat} (h : index? index = .ok place) :
    index.isAtom = true := by
  cases index with
  | pair => cases h
  | _ => rfl

theorem shallow_item {index : Value} (hdepth : 0 < depth) (h : v.isSource = false)
    (hindex : index.isSource = false) : (item depth v index).Shallow := by
  refine (shallow_elements hdepth h).bind fun items _ => ?_
  refine (shallow_index? index).bind fun place hplace => ?_
  have hshown : (index.inspected depth).Shallow := by
    refine Value.shallow_inspected ?_
    rw [Value.shownHeight_of_isAtom (isAtom_of_index? hplace) hindex]
    exact hdepth
  have htext : (indexText depth index).Shallow := by
    cases index with
    | float x => exact stopsFor_ok _
    | _ => exact hshown
  cases place.bind fun place => items[place]? with
  | some item => exact stopsFor_ok item
  | none => exact htext.bind fun _ _ => shallow_wrongType _

/-- Only forms have parts that an order looks at. -/
theorem shallow_less (hdepth : 0 < depth) {a b : Value} (h : b.isSource = false) :
    (Comparison.less.holds depth a b).Shallow := by
  obtain ⟨depth, rfl⟩ := Nat.exists_eq_add_of_le' hdepth
  unfold Comparison.holds
  split
  · exact stopsFor_ok _
  · split
    · exact stopsFor_ok _
    · cases h
    · exact shallow_fault _

theorem shallow_successor (v : Value) : (Arithmetic.successor v).Shallow := by
  unfold Arithmetic.successor
  split
  · exact stopsFor_ok _
  · exact stopsFor_ok _
  · exact shallow_fault _
  · exact shallow_fault _
  · exact shallow_fault _

/-- The loop goes no deeper from one round to the next. -/
theorem shallow_countUp (hdepth : 0 < depth) (rounds : Nat) (start : Value) {stop : Value}
    (h : stop.isSource = false) : (countUp depth rounds start stop).Shallow := by
  suffices hloop : ∀ before, (countUpFrom depth stop rounds before start).Shallow from hloop []
  induction rounds generalizing start with
  | zero => exact fun _ => nofun
  | succ rounds ih =>
    intro before
    refine (shallow_less hdepth h).bind fun goesOn _ => ?_
    cases goesOn with
    | true => exact (shallow_successor start).bind fun next _ => ih next (start :: before)
    | false => exact stopsFor_ok _

end Sequence

namespace Arithmetic

theorem shallow_numbers {name : String} {arguments : List Value}
    (h : ∀ argument ∈ arguments, argument.height ≤ depth) :
    (numbers depth name arguments).Shallow := by
  refine stopsFor_mapM fun argument hargument => ?_
  unfold number
  cases Number.ofValue? argument with
  | some number => exact stopsFor_ok number
  | none => exact (Value.shallow_text (h argument hargument)).bind fun _ _ => shallow_wrongType _

theorem shallow_sum (operands : List Number) : (Arithmetic.sum operands).Shallow := by
  have hdouble (operand : Number) : operand.toDouble.Shallow := by
    cases operand with
    | int value => exact shallow_orFault _ _
    | float value => exact stopsFor_ok value
  have hstep (total : Float) (operand : Number) :
      (do return total + (← operand.toDouble) : Attempt Float).Shallow :=
    (hdouble operand).bind fun _ _ => stopsFor_ok _
  exact stopsFor_foldlM hstep operands 0.0

end Arithmetic

end

/-! ## Runs -/

namespace Run

variable {α β : Type} {run : Run α} {s : Store}

/-- The run overflows when it begins in the store. -/
def Overflows (run : Run α) (s : Store) : Prop :=
  ∃ t, run s = .error .tooDeep t

/-- The run overflows in no store. -/
def Within (run : Run α) : Prop :=
  ∀ s, ¬ run.Overflows s

theorem within_ofAttempt {attempt : Attempt α} (h : attempt.Shallow) :
    (ofAttempt attempt).Within := by
  rintro s ⟨t, hoverflow⟩
  cases attempt with
  | ok a => cases hoverflow
  | error stop =>
    cases hoverflow
    exact h .tooDeep rfl rfl

theorem within_pure (a : α) : (pure a : Run α).Within :=
  fun _ ⟨_, hoverflow⟩ => by cases hoverflow

theorem within_fault (cause : Fault) : (fault cause : Run α).Within :=
  fun _ ⟨_, hoverflow⟩ => by cases hoverflow

theorem within_newChain (items : List Value) (ending : Value) : (newChain items ending).Within :=
  fun _ ⟨_, hoverflow⟩ => by cases hoverflow

/-- What cannot overflow changes nothing about where a run in front of it does. -/
theorem overflows_bind_iff {next : α → Run β} (hnext : ∀ a, (next a).Within) :
    (run >>= next).Overflows s ↔ run.Overflows s := by
  unfold Overflows
  cases hrun : run s with
  | ok a t =>
    rw [bind_of_ok hrun]
    exact iff_of_false (hnext a t) fun ⟨_, h⟩ => by cases h
  | error stop t => simp [bind_of_error hrun]

theorem Within.bind {next : α → Run β} (h : run.Within) (hnext : ∀ a, (next a).Within) :
    (run >>= next).Within :=
  fun s hoverflow => h s ((overflows_bind_iff hnext).1 hoverflow)

theorem overflows_inNative_iff {name : String} :
    (inNative name run).Overflows s ↔ run.Overflows s := by
  unfold Overflows
  cases hrun : run s with
  | ok a t => rw [inNative_of_ok name hrun]
  | error stop t =>
    rw [inNative_of_error name hrun]
    cases stop <;> simp [Stop.inside]

/-! ### Rows of calls -/

/-- The call for one of the items overflows, and those for the items before it end well. -/
def SomeOverflows (call : α → Run Value) (items : List α) (s : Store) : Prop :=
  ∃ earlier item later results t, items = earlier ++ item :: later ∧
    InTurn call earlier s (.ok results) t ∧ (call item).Overflows t

/-- The same of calls that each take the result of the one before it. -/
def SomeOverflowsFrom (call : Value → α → Run Value) (total : Value) (items : List α)
    (s : Store) : Prop :=
  ∃ earlier item later total' t, items = earlier ++ item :: later ∧
    Accumulates call total earlier s (.ok total') t ∧ (call total' item).Overflows t

variable {items : List α}

theorem overflows_mapM_iff {call : α → Run Value} :
    (items.mapM call).Overflows s ↔ SomeOverflows call items s := by
  constructor
  · intro h
    induction items generalizing s with
    | nil => exact absurd h (within_pure [] s)
    | cons item items ih =>
      rw [List.mapM_cons] at h
      cases hcall : call item s with
      | error stop t =>
        obtain ⟨u, hoverflow⟩ := h
        rw [bind_of_error hcall] at hoverflow
        cases hoverflow
        exact ⟨[], item, items, [], s, rfl, .done, t, hcall⟩
      | ok v t =>
        have hrest : (items.mapM call).Overflows t := by
          rw [Overflows, bind_of_ok hcall] at h
          exact (overflows_bind_iff fun results => within_pure (v :: results)).1 h
        obtain ⟨earlier, other, later, results, u, rfl, hearlier, hoverflow⟩ := ih hrest
        exact ⟨item :: earlier, other, later, v :: results, u, rfl, .called hcall hearlier,
          hoverflow⟩
  · rintro ⟨earlier, item, later, results, t, rfl, hearlier, u, hcall⟩
    refine ⟨u, ?_⟩
    rw [List.mapM_append, bind_of_ok hearlier.mapM_eq, List.mapM_cons]
    exact bind_of_error (bind_of_error hcall)

theorem overflows_foldlM_iff {call : Value → α → Run Value} {total : Value} :
    (items.foldlM call total).Overflows s ↔ SomeOverflowsFrom call total items s := by
  constructor
  · intro h
    induction items generalizing s total with
    | nil => exact absurd h (within_pure total s)
    | cons item items ih =>
      rw [List.foldlM_cons] at h
      cases hcall : call total item s with
      | error stop t =>
        obtain ⟨u, hoverflow⟩ := h
        rw [bind_of_error hcall] at hoverflow
        cases hoverflow
        exact ⟨[], item, items, total, s, rfl, .done, t, hcall⟩
      | ok v t =>
        rw [Overflows, bind_of_ok hcall] at h
        obtain ⟨earlier, other, later, total', u, rfl, hearlier, hoverflow⟩ := ih h
        exact ⟨item :: earlier, other, later, total', u, rfl, .called hcall hearlier, hoverflow⟩
  · rintro ⟨earlier, item, later, total', t, rfl, hearlier, u, hcall⟩
    refine ⟨u, ?_⟩
    rw [List.foldlM_append, bind_of_ok hearlier.foldlM_eq, List.foldlM_cons]
    exact bind_of_error hcall

end Run

/-! ## The natives -/

section

variable {m : Machine} (hdepth : 0 < m.depth) {list f : Value} {items : List Value} {s : Store}

theorem Native.within_unary {count : ArgumentCount} {action : Value → Run Value}
    {arguments : List Value} (h : ∀ a ∈ arguments, (action a).Within) :
    ((Native.unary count action).call arguments).Within := by
  match arguments with
  | [a] => exact h a List.mem_cons_self
  | [] | _ :: _ :: _ => exact Run.within_fault _

theorem Native.within_binary {count : ArgumentCount} {action : Value → Value → Run Value}
    {arguments : List Value} (h : ∀ a ∈ arguments, ∀ b ∈ arguments, (action a b).Within) :
    ((Native.binary count action).call arguments).Within := by
  match arguments with
  | [a, b] => exact h a List.mem_cons_self b (List.mem_cons_of_mem _ List.mem_cons_self)
  | [] | [_] | _ :: _ :: _ :: _ => exact Run.within_fault _

include hdepth in
/-- The natives that look at nothing but the cells of lists. -/
theorem Primitive.within_onCells {operation : Primitive}
    (h : operation ∈ [.length, .isList, .listRef, .append, .reverse, .last, .range])
    {arguments : List Value} (harguments : ∀ a ∈ arguments, a.isSource = false) :
    ((operation.native m).call arguments).Within := by
  simp only [List.mem_cons, List.not_mem_nil, or_false] at h
  rcases h with rfl | rfl | rfl | rfl | rfl | rfl | rfl
  · refine Native.within_unary fun a ha => ?_
    exact Run.within_ofAttempt (Sequence.shallow_length hdepth (harguments a ha))
  · exact Native.within_unary fun a _ => Run.within_pure (Value.bool a.isProperList)
  · refine Native.within_binary fun a ha b hb => ?_
    exact Run.within_ofAttempt (Sequence.shallow_item hdepth (harguments a ha) (harguments b hb))
  · show (Building.append m arguments).Within
    unfold Building.append
    cases arguments.getLast? with
    | none => exact Run.within_pure Value.nil
    | some last =>
      have hfront : ∀ a ∈ arguments.dropLast, a.isSource = false := fun a ha =>
        harguments a (List.mem_of_mem_dropLast ha)
      exact (Run.within_ofAttempt (Sequence.shallow_elementsOfAll hdepth hfront)).bind
        fun items => Run.within_newChain items last
  · refine Native.within_unary fun a ha => ?_
    exact (Run.within_ofAttempt (Sequence.shallow_elements hdepth (harguments a ha))).bind
      fun items => Run.within_newChain items.reverse .nil
  · refine Native.within_unary fun a ha => ?_
    exact Run.within_ofAttempt (Sequence.shallow_last hdepth (harguments a ha))
  · refine Native.within_binary fun a ha b hb => ?_
    exact (Run.within_ofAttempt (Sequence.shallow_countUp hdepth m.rounds a (harguments b hb))).bind
      fun items => Run.within_newChain items .nil

/-- The sum shows an element that is no number. -/
theorem Primitive.within_sum (hlist : list.toList? = some items)
    (h : ∀ item ∈ items, item.height ≤ m.depth) :
    ((Primitive.sum.native m).call [list]).Within := by
  have helements : (Sequence.elements m.depth list).Shallow := by
    rw [Sequence.elements_of_toList? m.depth hlist]
    exact stopsFor_ok items
  refine Run.within_ofAttempt (helements.bind fun items' hitems' => ?_)
  rw [Sequence.elements_eq_ok_iff, hlist] at hitems'
  cases hitems'
  refine (Arithmetic.shallow_numbers h).bind fun operands _ => ?_
  exact (Arithmetic.shallow_sum operands).bind fun _ _ => stopsFor_ok _

theorem Primitive.within_equal {v w : Value} (hv : v.ProperThroughout) (hw : w.ProperThroughout)
    (h : v.headDepth < m.depth) : ((Primitive.equal.native m).call [v, w]).Within :=
  Run.within_ofAttempt ((shallow_orTooDeep (hv.equal_ne_none hw h)).bind fun _ _ => stopsFor_ok _)

theorem Primitive.within_numericEqual {v w : Value} (hv : v.ProperThroughout)
    (hw : w.ProperThroughout) (h : v.headDepth < m.depth) :
    ((Primitive.numericEqual.native m).call [v, w]).Within := by
  have hchain :
      (chainHolds (fun a b => .orTooDeep (a.equals m.depth b)) [v, w]).Shallow := by
    refine (shallow_orTooDeep (hv.equals_ne_none hw h)).bind fun holds _ => ?_
    cases holds <;> exact stopsFor_ok _
  exact Run.within_ofAttempt (hchain.bind fun _ _ => stopsFor_ok _)

/-- The natives that call a procedure for each element overflow in a call. -/
theorem Primitive.overflows_onEach_iff {operation : Primitive}
    (h : operation ∈ [.map, .filter, .forEach]) (hf : f.isCallable = true)
    (hlist : list.toList? = some items) :
    ((operation.native m).call [f, list]).Overflows s ↔
      Run.SomeOverflows (fun item => m.invoke f [item]) items s := by
  rw [← Run.overflows_mapM_iff]
  simp only [List.mem_cons, List.not_mem_nil, or_false] at h
  rcases h with rfl | rfl | rfl
  · show (Calling.map m f list).Overflows s ↔ _
    rw [Calling.map_eq m hf hlist]
    exact Run.overflows_bind_iff fun results => Run.within_newChain results .nil
  · show (Calling.filter m f list).Overflows s ↔ _
    rw [Calling.filter_eq m hf hlist]
    exact Run.overflows_bind_iff fun results => Run.within_newChain _ Value.nil
  · show (Calling.forEach m f list).Overflows s ↔ _
    rw [Calling.forEach_eq m hf hlist]
    exact Run.overflows_bind_iff fun _ => Run.within_pure Value.undefined

theorem Primitive.overflows_reduce_iff (hf : f.isCallable = true)
    (hlist : list.toList? = some items) (initial : Value) :
    ((Primitive.reduce.native m).call [f, initial, list]).Overflows s ↔
      Run.SomeOverflowsFrom (fun total item => m.invoke f [total, item]) initial items s := by
  rw [← Run.overflows_foldlM_iff, ← Calling.reduce_eq m hf hlist]
  rfl

end

namespace Machine

section

variable {m : Machine} {scope : ScopeId} {natives : Natives} {operation : Primitive}
  {arguments : List Value}

theorem overflows_on_iff {s : Store} :
    ((above hosts (above hosts m)).eval scope (natives.on operation arguments)).Overflows s ↔
      ((operation.native m).call arguments).Overflows s := by
  rw [eval_on]
  exact Run.overflows_inNative_iff

theorem within_on (h : ((operation.native m).call arguments).Within) :
    ((above hosts (above hosts m)).eval scope (natives.on operation arguments)).Within :=
  fun s hoverflow => h s (overflows_on_iff.1 hoverflow)

end

/-- Lists of any length can be written and compared, and the natives can go through them,
within a limit above the depth of their nesting.  A native that calls a procedure for the
elements overflows only where one of the calls does, and the sum only where an element is too
high to be shown. -/
theorem length_never_overflows (hosts : Hosts) (rounds : Nat) {limit : Nat} (scope : ScopeId)
    (natives : Natives) {v w : Value} (hv : v.ProperThroughout) (hw : w.ProperThroughout)
    (hlimit : v.headDepth < limit) :
    let run operation arguments :=
      (ofDepth hosts rounds (limit + 2)).eval scope (natives.on operation arguments)
    let call f arguments := (ofDepth hosts rounds limit).invoke f arguments
    (v.write limit ≠ .error .tooDeep ∧ v.equal limit w ≠ none ∧ v.equals limit w ≠ none) ∧
    (run .equal [v, w]).Within ∧ (run .numericEqual [v, w]).Within ∧
    (∀ operation ∈ [Primitive.length, .isList, .listRef, .append, .reverse, .last, .range],
      ∀ arguments : List Value, (∀ argument ∈ arguments, argument.isSource = false) →
        (run operation arguments).Within) ∧
    ∀ list items, list.toList? = some items →
      ((∀ item ∈ items, item.height ≤ limit) → (run .sum [list]).Within) ∧
      ∀ f, f.isCallable = true → ∀ s,
        (∀ operation ∈ [Primitive.map, .filter, .forEach],
          (run operation [f, list]).Overflows s ↔
            Run.SomeOverflows (fun item => call f [item]) items s) ∧
        ∀ initial, (run .reduce [f, initial, list]).Overflows s ↔
          Run.SomeOverflowsFrom (fun total item => call f [total, item]) initial items s := by
  intro run call
  have hlimit' : v.headDepth < (ofDepth hosts rounds limit).depth := by rwa [depth_ofDepth]
  have hdepth : 0 < (ofDepth hosts rounds limit).depth := Nat.zero_lt_of_lt hlimit'
  have hheight : v.height ≤ limit := hv.height_eq ▸ hlimit
  refine ⟨⟨?_, hv.equal_ne_none hw hlimit, hv.equals_ne_none hw hlimit⟩,
    within_on (Primitive.within_equal hv hw hlimit'),
    within_on (Primitive.within_numericEqual hv hw hlimit'), ?_, ?_⟩
  · exact fun hoverflow => Value.shallow_write hheight _ hoverflow rfl
  · intro operation hoperation arguments harguments
    exact within_on (Primitive.within_onCells hdepth hoperation harguments)
  · intro list items hlist
    refine ⟨fun hitems => within_on (Primitive.within_sum hlist ?_), fun f hf s => ⟨?_, ?_⟩⟩
    · rwa [depth_ofDepth]
    · intro operation hoperation
      exact overflows_on_iff.trans (Primitive.overflows_onEach_iff hoperation hf hlist)
    · intro initial
      exact overflows_on_iff.trans (Primitive.overflows_reduce_iff hf hlist initial)

/-- A list of five elements is written, counted and negated element by element on two levels. -/
theorem length_never_overflows_of_five :
    let natives : Natives := ⟨fun _ => 0, fun _ => "native"⟩
    let items := [1.0, 2.0, 3.0, 4.0, 5.0].map Value.float
    let list := Value.chain 0 items .nil
    let negate := Value.native 0 "negative" (.primitive .negate)
    list.ProperThroughout ∧ list.headDepth < 2 ∧ list.write 2 ≠ .error .tooDeep ∧
      ((ofDepth usualHosts 9 4).eval 0 (natives.on .length [list])).Within ∧
      ∀ s, ¬ ((ofDepth usualHosts 9 4).eval 0 (natives.on .map [negate, list])).Overflows s := by
  intro natives items list negate
  have hproper : list.ProperThroughout :=
    ⟨rfl, rfl, rfl, rfl, rfl, rfl, rfl, rfl, rfl, rfl, rfl⟩
  obtain ⟨⟨hwrite, -, -⟩, -, -, hcells, hcalls⟩ :=
    length_never_overflows usualHosts 9 0 natives hproper hproper
      (show list.headDepth < 2 by decide)
  have hattempt (item : Value) : (Arithmetic.negate item).Shallow := by
    unfold Arithmetic.negate
    split
    · exact stopsFor_ok _
    · exact shallow_fault _
  have hnegate (item : Value) : ((ofDepth usualHosts 9 2).invoke negate [item]).Within :=
    fun s hoverflow =>
      Run.within_ofAttempt (hattempt item) s (Run.overflows_inNative_iff.1 hoverflow)
  refine ⟨hproper, by decide, hwrite, hcells .length (by decide) [list] ?_, fun s hoverflow => ?_⟩
  · exact List.forall_mem_singleton.2 rfl
  · have hmap := ((hcalls list items rfl).2 negate rfl s).1 .map (by decide)
    obtain ⟨earlier, item, later, results, t, -, -, hitem⟩ := hmap.1 hoverflow
    exact hnegate item t hitem

end Machine

end TinyLisp
