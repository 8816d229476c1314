import TinyLisp.Proofs.Double.Integers
import TinyLisp.Proofs.Unrolling
import TinyLisp.Proofs.Writing

/-!
# The algebra of lists

The natives on lists do with lists what is done with the rows of their elements.  They
take no list for granted: every argument is turned into a row first, and a value that is
no proper list is refused there.

There are five groups.

* `Sequence.Corresponds`: lists and rows stand for each other.  `Value.Refusable` are the
  values that a message can refuse.
* The natives from the rows: `elementsOfAll_eq` and `elementsOfAll_of_find?` for several
  lists, `length_of_toList?` and its neighbours for one.
* `Run.Computes`: runs that end well and take nothing but identities from the store, and
  with them the expressions whose operands are expressions again.
* `Machine.Appends`: `append` for any number of arguments.
* `Machine.list_algebra`: the laws for any lists, with their limits.
-/

namespace TinyLisp

variable {hosts : Hosts}

/-! ## Lists and their elements -/

namespace Value

/-- A message can refuse the value as a list.  It does not show a pair, but it shows every
other value. -/
def Refusable (depth : Nat) (v : Value) : Prop :=
  (∃ cell head tail, v = pair cell head tail) ∨ v.shownHeight ≤ depth ∧ v.Short

/-- The reason to stop that refuses the value as a list: a message, if there is one. -/
structure RefusedBy (depth : Nat) (v : Value) (stop : Stop) : Prop where
  complaint_iff : (∃ complaint, stop = .error (.wrongType complaint)) ↔ v.Refusable depth
  limit : ¬ v.Refusable depth → stop = .tooDeep ∨ stop = .fault .longInteger

end Value

namespace Sequence

theorem refuses_pair (depth : Nat) {cell : Identity} {head tail : Value}
    (h : (Value.pair cell head tail).isProperList = false) :
    ∃ stop, elements depth (.pair cell head tail) = .error stop ∧
      (Value.pair cell head tail).RefusedBy depth stop := by
  have helements : elements depth (.pair cell head tail) = .wrongType .notProperList := by
    unfold elements
    simp only [Value.toList?_eq_none_iff.2 h]
  have hrefusable : (Value.pair cell head tail).Refusable depth := .inl ⟨_, _, _, rfl⟩
  exact ⟨_, helements, iff_of_true ⟨_, rfl⟩ hrefusable, absurd hrefusable⟩

/-- What is no list at all is shown in the message. -/
theorem refuses_shown {depth : Nat} {v : Value}
    (hpair : ∀ cell head tail, v ≠ .pair cell head tail)
    (helements : elements depth v = (do .wrongType (.notList (← v.inspected depth)))) :
    ∃ stop, elements depth v = .error stop ∧ v.RefusedBy depth stop := by
  have hrefusable : v.Refusable depth ↔ ∃ text, v.inspect depth = .ok text := by
    rw [Value.exists_inspect_iff, Value.Refusable, or_iff_right]
    exact fun ⟨cell, head, tail, heq⟩ => hpair cell head tail heq
  rw [helements, Value.inspected]
  cases hinspect : v.inspect depth with
  | ok text =>
    have hshown := hrefusable.2 ⟨text, hinspect⟩
    exact ⟨_, rfl, iff_of_true ⟨_, rfl⟩ hshown, absurd hshown⟩
  | error stop =>
    have hlimit := Value.limited_inspect depth v stop hinspect
    have hhidden : ¬ v.Refusable depth := by
      rw [hrefusable, hinspect]
      exact fun ⟨_, h⟩ => by cases h
    refine ⟨stop, rfl, iff_of_false ?_ hhidden, fun _ => hlimit⟩
    rintro ⟨complaint, rfl⟩
    rcases hlimit with hlimit | hlimit <;> cases hlimit

/-- What is not a proper list is refused, and with a message if there is one. -/
theorem refuses_of_improper (depth : Nat) {v : Value} (h : v.isProperList = false) :
    ∃ stop, elements depth v = .error stop ∧ v.RefusedBy depth stop := by
  cases v with
  | nil => cases h
  | pair cell head tail => exact refuses_pair depth h
  | undefined | bool | int | float | string | symbol | identifier | form | embedded | procedure
  | native | callback => exact refuses_shown (fun _ _ _ => Value.noConfusion) rfl

theorem elements_eq_ok_iff {depth : Nat} {list : Value} {items : List Value} :
    elements depth list = .ok items ↔ list.toList? = some items := by
  refine ⟨fun h => ?_, elements_of_toList? depth⟩
  cases hlist : list.toList? with
  | some items' =>
    rw [elements_of_toList? depth hlist] at h
    cases h
    rfl
  | none =>
    obtain ⟨stop, hstop, -⟩ := refuses_of_improper depth (Value.toList?_eq_none_iff.1 hlist)
    rw [hstop] at h
    cases h

/-- Proper lists and rows of elements stand for each other, and nothing else is taken for a
list. -/
structure Corresponds (depth : Nat) : Prop where
  elements_newList : ∀ items s, ∃ list,
    Run.newList items s = .ok list (s.reserve items.length).2 ∧ elements depth list = .ok items
  newList_elements : ∀ list items s, elements depth list = .ok items → ∃ copy,
    Run.newList items s = .ok copy (s.reserve items.length).2 ∧ copy.toList? = list.toList?
  accepts_iff : ∀ v, (∃ items, elements depth v = .ok items) ↔ v.isProperList = true
  refuses_iff : ∀ v, (∃ complaint, elements depth v = .wrongType complaint) ↔
    v.isProperList = false ∧ v.Refusable depth

theorem corresponds (depth : Nat) : Corresponds depth where
  elements_newList items s := by
    have hlist := Value.toList?_chain s.nextIdentity items
    exact ⟨_, rfl, elements_of_toList? depth hlist⟩
  newList_elements list items s h := by
    rw [elements_eq_ok_iff.1 h]
    exact ⟨_, rfl, Value.toList?_chain s.nextIdentity items⟩
  accepts_iff v := by
    rw [Value.isProperList_iff]
    exact exists_congr fun items => elements_eq_ok_iff
  refuses_iff v := by
    constructor
    · rintro ⟨complaint, h⟩
      have himproper : v.isProperList = false := by
        rw [← Bool.not_eq_true, Value.isProperList_iff]
        rintro ⟨items, hitems⟩
        rw [elements_of_toList? depth hitems] at h
        cases h
      obtain ⟨stop, hstop, hrefuses⟩ := refuses_of_improper depth himproper
      rw [hstop] at h
      exact ⟨himproper, hrefuses.complaint_iff.1 ⟨complaint, Except.error.inj h⟩⟩
    · rintro ⟨himproper, hrefusable⟩
      obtain ⟨stop, hstop, hrefuses⟩ := refuses_of_improper depth himproper
      obtain ⟨complaint, rfl⟩ := hrefuses.complaint_iff.2 hrefusable
      exact ⟨complaint, hstop⟩

/-! ## Several lists -/

theorem exists_rows {lists : List Value} (h : ∀ list ∈ lists, list.isProperList = true) :
    ∃ rows : List (List Value), lists.map Value.toList? = rows.map some := by
  induction lists with
  | nil => exact ⟨[], rfl⟩
  | cons list lists ih =>
    rw [List.forall_mem_cons] at h
    obtain ⟨items, hitems⟩ := Value.isProperList_iff.1 h.1
    obtain ⟨rows, hrows⟩ := ih h.2
    exact ⟨items :: rows, by rw [List.map_cons, hitems, hrows, List.map_cons]⟩

/-- The elements of proper lists, one list behind the other. -/
theorem elementsOfAll_eq (depth : Nat) {lists : List Value} {rows : List (List Value)}
    (h : lists.map Value.toList? = rows.map some) :
    elementsOfAll depth lists = .ok rows.flatten := by
  have hrows : lists.mapM (elements depth) = .ok rows := by
    induction lists generalizing rows with
    | nil =>
      obtain rfl := List.map_eq_nil_iff.1 h.symm
      rfl
    | cons list lists ih =>
      obtain ⟨items, rest, rfl, hitems, hrest⟩ := List.map_eq_cons_iff.1 h.symm
      rw [List.mapM_cons, elements_of_toList? depth hitems.symm, ih hrest.symm]
      rfl
  rw [elementsOfAll, hrows]
  rfl

/-- The first value that is not a proper list decides how the lists are refused. -/
theorem elementsOfAll_of_find? (depth : Nat) {lists : List Value} {v : Value}
    (h : lists.find? (!·.isProperList) = some v) :
    ∃ stop, elementsOfAll depth lists = .error stop ∧ v.RefusedBy depth stop := by
  have hrows : ∃ stop, lists.mapM (elements depth) = .error stop ∧ v.RefusedBy depth stop := by
    induction lists with
    | nil => cases h
    | cons list lists ih =>
      cases hproper : list.isProperList with
      | true =>
        obtain ⟨items, hitems⟩ := Value.isProperList_iff.1 hproper
        rw [List.find?_cons_of_neg (by simp [hproper])] at h
        obtain ⟨stop, hstop, hrefuses⟩ := ih h
        refine ⟨stop, ?_, hrefuses⟩
        rw [List.mapM_cons, elements_of_toList? depth hitems, hstop]
        rfl
      | false =>
        rw [List.find?_cons_of_pos (by simp [hproper])] at h
        cases h
        obtain ⟨stop, hstop, hrefuses⟩ := refuses_of_improper depth hproper
        refine ⟨stop, ?_, hrefuses⟩
        rw [List.mapM_cons, hstop]
        rfl
  obtain ⟨stop, hstop, hrefuses⟩ := hrows
  refine ⟨stop, ?_, hrefuses⟩
  rw [elementsOfAll, hstop]
  rfl

/-! ## One list -/

theorem index?_int (n : Nat) : index? (.int n) = .ok (some n) := by
  show Except.ok (if (true && decide (0 ≤ (n : Int))) = true then some (n : Int).toNat
    else none) = _
  rw [if_pos (by simp), Int.toNat_natCast]

/-- A double that stands for a natural number is an index. -/
theorem index?_float {x : Float} {n : Nat} (h : Double.IsInt x n) :
    index? (.float x) = .ok (some n) := by
  obtain ⟨f, hfraction, hvalue⟩ := h
  have htruncated : truncated (.float x) = .ok (n : Int) := by
    show (do return (← Arithmetic.fraction x).truncate : Attempt Int) = _
    rw [Arithmetic.fraction, hfraction]
    exact congrArg Except.ok (BinaryFraction.truncate_of_value_eq hvalue)
  have hsame : sameNumber n x = true := by
    rw [sameNumber, hfraction]
    simp only [BinaryFraction.compareInt_of_value_eq hvalue, beq_self_eq_true]
  unfold index?
  rw [htruncated]
  show Except.ok (if (sameNumber n x && decide (0 ≤ (n : Int))) = true then some (n : Int).toNat
    else none) = _
  rw [hsame, if_pos (by simp), Int.toNat_natCast]

/-- A count is an index. -/
theorem index?_count {n : Nat} (h : n < 2 ^ 53) : index? (count n) = .ok (some n) :=
  index?_float (Double.isInt_ofInt (by omega))

section

variable {depth place : Nat} {list index item : Value} {items : List Value}

theorem length_of_toList? (h : list.toList? = some items) :
    length depth list = .ok (count items.length) := by
  have hcount : length depth list = (return count (← elements depth list).length) := by
    cases list with
    | string text => cases h
    | _ => rfl
  rw [hcount, elements_of_toList? depth h]
  rfl

theorem item_of_toList? (h : list.toList? = some items) (hindex : index? index = .ok (some place))
    (hitem : items[place]? = some item) : Sequence.item depth list index = .ok item := by
  rw [Sequence.item, elements_of_toList? depth h, hindex]
  simp only [bind, Except.bind, Option.bind_some, hitem]
  rfl

theorem last_of_toList? (h : list.toList? = some items) (hlast : items.getLast? = some item) :
    last depth list = .ok item := by
  rw [last, elements_of_toList? depth h]
  simp only [bind, Except.bind, hlast]
  rfl

end

end Sequence

/-! ## Runs that only compute -/

namespace Run

/-- The run ends with a good result in whatever store it begins, and takes no more from the
store than identities. -/
def Computes {α : Type} (run : Run α) (good : α → Prop) : Prop :=
  ∀ s, ∃ a count, run s = .ok a (s.reserve count).2 ∧ good a

variable {α β : Type} {run : Run α} {good : α → Prop} {good' : β → Prop}

theorem computes_pure {a : α} (h : good a) : (pure a : Run α).Computes good :=
  fun _ => ⟨a, 0, rfl, h⟩

theorem Computes.bind {next : α → Run β} (h : run.Computes good)
    (hnext : ∀ a, good a → (next a).Computes good') : (run >>= next).Computes good' := by
  intro s
  obtain ⟨a, count, hrun, ha⟩ := h s
  obtain ⟨b, count', hb, hgood⟩ := hnext a ha (s.reserve count).2
  refine ⟨b, count + count', ?_, hgood⟩
  rw [bind_of_ok hrun, hb]
  simp only [Store.reserve, Nat.add_assoc]

theorem Computes.inNative (name : String) (h : run.Computes good) :
    (inNative name run).Computes good := by
  intro s
  obtain ⟨a, count, hrun, ha⟩ := h s
  exact ⟨a, count, inNative_of_ok name hrun, ha⟩

theorem computes_ofAttempt {attempt : Attempt α} {a : α} (h : attempt = .ok a) :
    (ofAttempt attempt).Computes (· = a) := by
  rw [h]
  exact computes_pure rfl

theorem computes_newChain {items : List Value} {ending : Value} {good : Value → Prop}
    (h : ∀ first, good (.chain first items ending)) : (newChain items ending).Computes good :=
  fun s => ⟨_, items.length, rfl, h s.nextIdentity⟩

end Run

/-! ## Natives in expressions -/

/-- The standard natives as values, each with an identity and a name. -/
structure Natives where
  identity : Primitive → Identity
  name : Primitive → String

/-- The call of a native in source. -/
def Natives.call (natives : Natives) (operation : Primitive) (operands : List Value) : Value :=
  .form (.embedded 0 (.native (natives.identity operation) (natives.name operation)
    (.primitive operation)) :: operands)

/-- The call of a native with values in place of operands. -/
def Natives.on (natives : Natives) (operation : Primitive) (arguments : List Value) : Value :=
  natives.call operation (arguments.map (.embedded 0))

namespace Machine

variable {m : Machine} {scope : ScopeId} {natives : Natives} {operation : Primitive}
  {e e' : Value} {good good' good'' : Value → Prop}

theorem eval_native (m : Machine) (scope : ScopeId) (natives : Natives) (operation : Primitive)
    (operands : List Value) :
    (above hosts (above hosts m)).eval scope (natives.call operation operands) = (do
      let arguments ← operands.mapM ((above hosts m).eval scope)
      Run.inNative (natives.name operation) ((operation.native m).call arguments)) :=
  rfl

theorem computes_call_one (h : ((above hosts m).eval scope e).Computes good)
    (hcall : ∀ v, good v → ((operation.native m).call [v]).Computes good') :
    ((above hosts (above hosts m)).eval scope (natives.call operation [e])).Computes good' := by
  rw [eval_native]
  simp only [List.mapM_cons, List.mapM_nil, bind_assoc, pure_bind]
  exact h.bind fun v hv => (hcall v hv).inNative _

theorem computes_call_two (h : ((above hosts m).eval scope e).Computes good)
    (h' : ((above hosts m).eval scope e').Computes good')
    (hcall : ∀ v w, good v → good' w → ((operation.native m).call [v, w]).Computes good'') :
    ((above hosts (above hosts m)).eval scope
      (natives.call operation [e, e'])).Computes good'' := by
  rw [eval_native]
  simp only [List.mapM_cons, List.mapM_nil, bind_assoc, pure_bind]
  exact h.bind fun v hv => h'.bind fun w hw => (hcall v w hv hw).inNative _

/-- The expression ends with a list of the items. -/
def Lists (m : Machine) (scope : ScopeId) (e : Value) (items : List Value) : Prop :=
  (m.eval scope e).Computes fun v => v.toList? = some items

/-- The expression ends with the value. -/
def Gives (m : Machine) (scope : ScopeId) (e v : Value) : Prop :=
  (m.eval scope e).Computes (· = v)

variable {xs ys : List Value} {x y : Value}

theorem lists_embedded (m : Machine) (scope : ScopeId) {list : Value}
    (h : list.toList? = some xs) : (above hosts m).Lists scope (.embedded 0 list) xs :=
  Run.computes_pure h

theorem gives_embedded (m : Machine) (scope : ScopeId) (v : Value) :
    (above hosts m).Gives scope (.embedded 0 v) v :=
  Run.computes_pure rfl

theorem lists_append (h : (above hosts m).Lists scope e xs)
    (h' : (above hosts m).Lists scope e' ys) :
    (above hosts (above hosts m)).Lists scope (natives.call .append [e, e']) (xs ++ ys) := by
  refine computes_call_two h h' fun v w hv hw => ?_
  have hrows : [v].map Value.toList? = [xs].map some := by rw [List.map_singleton, hv]; rfl
  have helements := Sequence.elementsOfAll_eq m.depth hrows
  refine (Run.computes_ofAttempt helements).bind ?_
  rintro _ rfl
  rw [List.flatten_singleton]
  exact Run.computes_newChain fun first => Value.toList?_chain_of_toList? first xs hw

theorem lists_reverse (h : (above hosts m).Lists scope e xs) :
    (above hosts (above hosts m)).Lists scope (natives.call .reverse [e]) xs.reverse := by
  refine computes_call_one h fun v hv => ?_
  have helements := Sequence.elements_of_toList? m.depth hv
  refine (Run.computes_ofAttempt helements).bind ?_
  rintro _ rfl
  exact Run.computes_newChain fun first => Value.toList?_chain first _

theorem gives_length (h : (above hosts m).Lists scope e xs) :
    (above hosts (above hosts m)).Gives scope (natives.call .length [e])
      (Sequence.count xs.length) :=
  computes_call_one h fun _ hv => Run.computes_ofAttempt (Sequence.length_of_toList? hv)

theorem gives_item (h : (above hosts m).Lists scope e xs) (h' : (above hosts m).Gives scope e' x)
    {place : Nat} {item : Value} (hindex : Sequence.index? x = .ok (some place))
    (hitem : xs[place]? = some item) :
    (above hosts (above hosts m)).Gives scope (natives.call .listRef [e, e']) item := by
  refine computes_call_two h h' ?_
  rintro v _ hv rfl
  exact Run.computes_ofAttempt (Sequence.item_of_toList? hv hindex hitem)

theorem gives_last (h : (above hosts m).Lists scope e xs) {item : Value}
    (hlast : xs.getLast? = some item) :
    (above hosts (above hosts m)).Gives scope (natives.call .last [e]) item :=
  computes_call_one h fun _ hv => Run.computes_ofAttempt (Sequence.last_of_toList? hv hlast)

theorem gives_add {x y : Float} (h : (above hosts m).Gives scope e (.float x))
    (h' : (above hosts m).Gives scope e' (.float y)) :
    (above hosts (above hosts m)).Gives scope (natives.call .add [e, e'])
      (.float (0.0 + x + y)) := by
  refine computes_call_two h h' ?_
  rintro _ _ rfl rfl
  exact Run.computes_pure rfl

/-! ## Any number of lists -/

theorem eval_on (m : Machine) (scope : ScopeId) (natives : Natives) (operation : Primitive)
    (arguments : List Value) :
    (above hosts (above hosts m)).eval scope (natives.on operation arguments) =
      Run.inNative (natives.name operation) ((operation.native m).call arguments) :=
  eval_applied_native m scope _ _ operation arguments

/-- The call of `append` with the values of `front` and, behind them, the last one. -/
def appended (natives : Natives) (front : List Value) (last : Value) : Value :=
  natives.on .append (front ++ [last])

theorem eval_appended_of_proper (m : Machine) (scope : ScopeId) (natives : Natives)
    {front : List Value} (last : Value) {rows : List (List Value)}
    (h : front.map Value.toList? = rows.map some) (s : Store) :
    (above hosts (above hosts m)).eval scope (appended natives front last) s =
      .ok (.chain s.nextIdentity rows.flatten last) (s.reserve rows.flatten.length).2 := by
  have happend : Building.append m (front ++ [last]) = Run.newChain rows.flatten last := by
    rw [Building.append, List.getLast?_concat]
    simp only [List.dropLast_concat, Sequence.elementsOfAll_eq m.depth h]
    rfl
  rw [appended, eval_on]
  exact Run.inNative_of_ok _ (congrFun happend s)

theorem eval_appended_of_find? (m : Machine) (scope : ScopeId) (natives : Natives)
    {front : List Value} (last : Value) {v : Value}
    (h : front.find? (!·.isProperList) = some v) (s : Store) :
    ∃ stop, v.RefusedBy m.depth stop ∧
      (above hosts (above hosts m)).eval scope (appended natives front last) s =
        .error (stop.inside (natives.name .append)) s := by
  obtain ⟨stop, hstop, hrefused⟩ := Sequence.elementsOfAll_of_find? m.depth h
  have happend : Building.append m (front ++ [last]) s = .error stop s := by
    rw [Building.append, List.getLast?_concat]
    simp only [List.dropLast_concat, hstop]
    rfl
  refine ⟨stop, hrefused, ?_⟩
  rw [appended, eval_on]
  exact Run.inNative_of_error _ happend

/-- What `append` does with any number of arguments.  It takes the elements of all of them but
the last one, which it shares, and the first of them that is no proper list is refused. -/
structure Appends (m : Machine) (depth : Nat) (scope : ScopeId) (natives : Natives) : Prop where
  nothing : ∀ s, m.eval scope (natives.on .append []) s = .ok .nil s
  shares : ∀ front last s, (∀ list ∈ front, list.isProperList = true) →
    ∃ rows : List (List Value), front.map Value.toList? = rows.map some ∧
      m.eval scope (appended natives front last) s =
        .ok (.chain s.nextIdentity rows.flatten last) (s.reserve rows.flatten.length).2
  refuses : ∀ front last s v, front.find? (!·.isProperList) = some v →
    ∃ stop, v.RefusedBy depth stop ∧
      m.eval scope (appended natives front last) s =
        .error (stop.inside (natives.name .append)) s
  complains_iff : ∀ front last s,
    (∃ complaint t,
      m.eval scope (appended natives front last) s = .error (.error (.wrongType complaint)) t) ↔
    ∃ v, front.find? (!·.isProperList) = some v ∧ v.Refusable depth

theorem inside_eq_wrongType_iff {name : String} {stop : Stop} {complaint : TypeProblem} :
    stop.inside name = .error (.wrongType complaint) ↔ stop = .error (.wrongType complaint) := by
  cases stop <;> simp [Stop.inside]

theorem appends (hosts : Hosts) (m : Machine) (scope : ScopeId) (natives : Natives) :
    Appends (above hosts (above hosts m)) m.depth scope natives where
  nothing _ := rfl
  shares front last s hproper := by
    obtain ⟨rows, hrows⟩ := Sequence.exists_rows hproper
    exact ⟨rows, hrows, eval_appended_of_proper m scope natives last hrows s⟩
  refuses front last s v hfirst := eval_appended_of_find? m scope natives last hfirst s
  complains_iff front last s := by
    -- either all of `front` are lists, or the first one that is not decides
    cases hfirst : front.find? (!·.isProperList) with
    | none =>
      have hproper : ∀ list ∈ front, list.isProperList = true := by
        simpa using List.find?_eq_none.1 hfirst
      obtain ⟨rows, hrows⟩ := Sequence.exists_rows hproper
      rw [eval_appended_of_proper m scope natives last hrows]
      exact iff_of_false (fun ⟨_, _, h⟩ => by cases h) (fun ⟨_, h, _⟩ => by cases h)
    | some v =>
      obtain ⟨stop, hstop, heval⟩ := eval_appended_of_find? m scope natives last hfirst s
      rw [heval]
      simp only [EStateM.Result.error.injEq, inside_eq_wrongType_iff, Option.some.injEq,
        exists_eq_left', exists_and_left, exists_eq', and_true, hstop.complaint_iff]

/-! ## The laws -/

/-- The laws for expressions `a`, `b` and `c` that stand for lists of `xs`, `ys` and `zs`. -/
structure ListLaws (m : Machine) (scope : ScopeId) (natives : Natives) (a b c : Value)
    (xs ys zs : List Value) : Prop where
  append_assoc :
    m.Lists scope (natives.call .append [a, natives.call .append [b, c]]) (xs ++ ys ++ zs) ∧
      m.Lists scope (natives.call .append [natives.call .append [a, b], c]) (xs ++ ys ++ zs)
  append_nil :
    m.Lists scope (natives.call .append [a, .embedded 0 .nil]) xs ∧
      m.Lists scope (natives.call .append [.embedded 0 .nil, a]) xs
  reverse_append :
    m.Lists scope (natives.call .reverse [natives.call .append [a, b]]) (xs ++ ys).reverse ∧
      m.Lists scope (natives.call .append [natives.call .reverse [b], natives.call .reverse [a]])
        (xs ++ ys).reverse
  reverse_reverse : m.Lists scope (natives.call .reverse [natives.call .reverse [a]]) xs
  length_append :
    m.Gives scope (natives.call .length [natives.call .append [a, b]])
      (Sequence.count (xs.length + ys.length))
  /-- Counts from `2 ^ 53` on are rounded. -/
  add_lengths : xs.length + ys.length < 2 ^ 53 →
    m.Gives scope (natives.call .add [natives.call .length [a], natives.call .length [b]])
      (Sequence.count (xs.length + ys.length))
  item_front : ∀ index place item, Sequence.index? index = .ok (some place) →
    xs[place]? = some item →
    m.Gives scope (natives.call .listRef [natives.call .append [a, b], .embedded 0 index]) item ∧
      m.Gives scope (natives.call .listRef [a, .embedded 0 index]) item
  item_back : ∀ index index' place item,
    Sequence.index? index = .ok (some (xs.length + place)) →
    Sequence.index? index' = .ok (some place) → ys[place]? = some item →
    m.Gives scope (natives.call .listRef [natives.call .append [a, b], .embedded 0 index]) item ∧
      m.Gives scope (natives.call .listRef [b, .embedded 0 index']) item
  last_append : ∀ item, ys.getLast? = some item →
    m.Gives scope (natives.call .last [natives.call .append [a, b]]) item ∧
      m.Gives scope (natives.call .last [b]) item

theorem sum_counts {k n : Nat} (h : k + n < 2 ^ 53) :
    (0.0 : Float) + .ofModel (.ofInt k) + .ofModel (.ofInt n) =
      .ofModel (.ofInt (k + n : Nat)) := by
  have hzero : (0.0 : Float) = .ofModel (.ofInt (0 : Nat)) := by decide
  rw [hzero, Double.ofInt_add_ofInt (by omega), Nat.zero_add, Double.ofInt_add_ofInt (by omega)]

/-- The sum of two lengths begins with zero. -/
theorem gives_add_lengths (hosts : Hosts) (m : Machine) (scope : ScopeId) (natives : Natives)
    {a b : Value} (ha : a.toList? = some xs) (hb : b.toList? = some ys) :
    (above hosts (above hosts (above hosts m))).Gives scope (natives.call .add
        [natives.call .length [.embedded 0 a], natives.call .length [.embedded 0 b]])
      (.float (0.0 + .ofModel (.ofInt xs.length) + .ofModel (.ofInt ys.length))) :=
  gives_add (gives_length (lists_embedded m scope ha)) (gives_length (lists_embedded m scope hb))

theorem listLaws (hosts : Hosts) (m : Machine) (scope : ScopeId) (natives : Natives)
    {a b c : Value} {zs : List Value} (ha : a.toList? = some xs) (hb : b.toList? = some ys)
    (hc : c.toList? = some zs) :
    ListLaws (above hosts (above hosts (above hosts m))) scope natives (.embedded 0 a)
      (.embedded 0 b) (.embedded 0 c) xs ys zs := by
  -- the operands of an inner call are evaluated one level further down
  have hinner {list : Value} {items : List Value} (h : list.toList? = some items) :
      (above hosts m).Lists scope (.embedded 0 list) items := lists_embedded m scope h
  have houter {list : Value} {items : List Value} (h : list.toList? = some items) :
      (above hosts (above hosts m)).Lists scope (.embedded 0 list) items :=
    lists_embedded (above hosts m) scope h
  have hindex (index : Value) :
      (above hosts (above hosts m)).Gives scope (.embedded 0 index) index :=
    gives_embedded (above hosts m) scope index
  have happend : (above hosts (above hosts m)).Lists scope
      (natives.call .append [.embedded 0 a, .embedded 0 b]) (xs ++ ys) :=
    lists_append (hinner ha) (hinner hb)
  constructor
  case append_assoc =>
    refine ⟨?_, lists_append happend (houter hc)⟩
    rw [List.append_assoc]
    exact lists_append (houter ha) (lists_append (hinner hb) (hinner hc))
  case append_nil =>
    have hnil : (Value.nil).toList? = some [] := rfl
    refine ⟨?_, lists_append (houter hnil) (houter ha)⟩
    rw [← List.append_nil xs]
    exact lists_append (houter ha) (houter hnil)
  case reverse_append =>
    refine ⟨lists_reverse happend, ?_⟩
    rw [List.reverse_append]
    exact lists_append (lists_reverse (hinner hb)) (lists_reverse (hinner ha))
  case reverse_reverse =>
    rw [← List.reverse_reverse xs]
    exact lists_reverse (lists_reverse (hinner ha))
  case length_append =>
    rw [← List.length_append]
    exact gives_length happend
  case add_lengths =>
    intro h
    rw [Sequence.count, ← sum_counts h]
    exact gives_add_lengths hosts m scope natives ha hb
  case item_front =>
    intro index place item hplace hitem
    have hfront : (xs ++ ys)[place]? = some item := by
      obtain ⟨hlt, -⟩ := List.getElem?_eq_some_iff.1 hitem
      rw [List.getElem?_append_left hlt, hitem]
    exact ⟨gives_item happend (hindex index) hplace hfront,
      gives_item (houter ha) (hindex index) hplace hitem⟩
  case item_back =>
    intro index index' place item hplace hplace' hitem
    have hback : (xs ++ ys)[xs.length + place]? = some item := by
      rw [List.getElem?_append_right (Nat.le_add_right _ _), Nat.add_sub_cancel_left, hitem]
    exact ⟨gives_item happend (hindex index) hplace hback,
      gives_item (houter hb) (hindex index') hplace' hitem⟩
  case last_append =>
    intro item hlast
    have hboth : (xs ++ ys).getLast? = some item := by
      rw [List.getLast?_append, hlast, Option.some_or]
    exact ⟨gives_last happend hboth, gives_last (houter hb) hlast⟩

end Machine

end TinyLisp
