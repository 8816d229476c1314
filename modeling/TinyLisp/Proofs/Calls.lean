import Mathlib.Data.List.Find
import TinyLisp.Proofs.Evaluation.Levels
import TinyLisp.Proofs.Shapes

/-!
# Calls

What the names of a procedure mean when it is called.  A parameter stands for its
last argument.  A parameter that got none means what its name means where the
procedure was made.

There are five groups.

* `Receives` and `Misses`: parameters with and without arguments.
* Rows of bindings, of which the last one for a name counts.
* One more scope: a search that begins there goes on where the scope lies.
* `Store.Refers` and `Store.Unbound`: names that mean a binding and names that
  mean nothing, for those who read them and for those who give them a value.
* `Machine.call_resolves`: the store in which the body of a procedure begins.
-/

namespace TinyLisp

variable {hosts : Hosts}

/-! ## Parameters and arguments -/

/-- The argument at the last position at which the name has one. -/
def Receives (parameters : List String) (arguments : List Value) (name : String) (v : Value) :
    Prop :=
  ∃ i, parameters[i]? = some name ∧ arguments[i]? = some v ∧
    ∀ j, i < j → j < arguments.length → parameters[j]? ≠ some name

/-- The name has no argument. -/
def Misses (parameters : List String) (arguments : List Value) (name : String) : Prop :=
  ∀ i < arguments.length, parameters[i]? ≠ some name

/-! ## Rows of bindings -/

namespace Scope

variable {row : List (String × Value)} {name : String}

theorem local?_bindAll_of_forall_ne (frame : Scope) (h : ∀ binding ∈ row, binding.1 ≠ name) :
    (frame.bindAll row).local? name = frame.local? name := by
  induction row generalizing frame with
  | nil => rfl
  | cons first row ih =>
    have hrow := ih (frame.bind first.1 first.2) fun binding hb => h binding (by simp [hb])
    have hfirst : name ≠ first.1 := (h first (by simp)).symm
    rw [local?_bind, if_neg hfirst] at hrow
    exact hrow

/-- The last binding of a name counts. -/
theorem local?_bindAll_of_last (frame : Scope) {i : Nat} {v : Value}
    (h : row[i]? = some (name, v)) (hlast : ∀ j w, i < j → row[j]? ≠ some (name, w)) :
    (frame.bindAll row).local? name = some v := by
  induction row generalizing frame i with
  | nil => cases h
  | cons first row ih =>
    cases i with
    | zero =>
      obtain rfl : first = (name, v) := Option.some.inj h
      have hrow : ∀ binding ∈ row, binding.1 ≠ name := by
        rintro ⟨_, w⟩ hbinding rfl
        obtain ⟨j, hj⟩ := List.mem_iff_getElem?.1 hbinding
        exact hlast (j + 1) w (Nat.succ_pos j) hj
      exact (local?_bindAll_of_forall_ne _ hrow).trans (by simp)
    | succ i => exact ih _ h fun j w hj => hlast (j + 1) w (Nat.succ_lt_succ hj)

end Scope

namespace Machine

variable {parameters : List String} {arguments : List Value} {name : String}

theorem local?_callScope_of_receives {v : Value} (outer : ScopeId)
    (h : Receives parameters arguments name v) :
    (callScope parameters arguments outer).local? name = some v := by
  obtain ⟨i, hname, hv, hlast⟩ := h
  apply Scope.local?_bindAll_of_last _ (List.getElem?_zip_eq_some.2 ⟨hname, hv⟩)
  intro j w hj hbound
  obtain ⟨hname, hw⟩ := List.getElem?_zip_eq_some.1 hbound
  exact hlast j hj (List.getElem?_eq_some_iff.1 hw).1 hname

theorem local?_callScope_of_misses (outer : ScopeId) (h : Misses parameters arguments name) :
    (callScope parameters arguments outer).local? name = none := by
  apply Scope.local?_bindAll_of_forall_ne
  rintro ⟨_, w⟩ hbound rfl
  obtain ⟨i, hi⟩ := List.mem_iff_getElem?.1 hbound
  obtain ⟨hname, hw⟩ := List.getElem?_zip_eq_some.1 hi
  exact h i (List.getElem?_eq_some_iff.1 hw).1 hname

/-- Arguments beyond the parameters are dropped. -/
theorem callScope_take (parameters : List String) (arguments : List Value) (outer : ScopeId) :
    callScope parameters (arguments.take parameters.length) outer =
      callScope parameters arguments outer := by
  have hzip : parameters.zip (arguments.take parameters.length) = parameters.zip arguments := by
    induction parameters generalizing arguments with
    | nil => rfl
    | cons parameter parameters ih =>
      cases arguments with
      | nil => rfl
      | cons argument arguments => exact congrArg ((parameter, argument) :: ·) (ih arguments)
  rw [callScope, hzip, callScope]

end Machine

/-! ## One more scope -/

namespace Store

variable {s : Store} {outer : ScopeId} {frame : Scope}

theorem pathWithin_addScope (hearlier : ∀ i j, s.outer? i = some j → j < i) (frame : Scope)
    (count : Nat) {place : ScopeId} (hplace : place < s.scopes.size) :
    (s.addScope frame).2.pathWithin count place = s.pathWithin count place := by
  induction count generalizing place with
  | zero => rfl
  | succ count ih =>
    rw [pathWithin, pathWithin, getElem?_addScope_of_ne frame (Nat.ne_of_lt hplace)]
    cases hscope : s.scopes[place]? with
    | none => rfl
    | some scope =>
      obtain ⟨_ | outer, bindings⟩ := scope
      · rfl
      · have houter : s.outer? place = some outer := by rw [outer?, hscope]; rfl
        exact congrArg (place :: ·) (ih (Nat.lt_trans (hearlier place outer houter) hplace))

/-- The way out of a new scope goes on as the way out of the scope around it. -/
theorem path_addScope (hearlier : ∀ i j, s.outer? i = some j → j < i)
    (houter : outer < s.scopes.size) (hframe : frame.outer = some outer) :
    (s.addScope frame).2.path s.scopes.size = s.scopes.size :: s.path outer := by
  obtain ⟨_, bindings⟩ := frame
  obtain rfl : _ = some outer := hframe
  rw [path, size_addScope, pathWithin, getElem?_addScope_self]
  exact congrArg _ (pathWithin_addScope hearlier _ _ houter)

theorem local?_addScope_self (frame : Scope) (name : String) :
    (s.addScope frame).2.local? s.scopes.size name = frame.local? name := by
  rw [local?, getElem?_addScope_self]
  rfl

theorem local?_addScope_of_mem_path (hearlier : ∀ i j, s.outer? i = some j → j < i)
    (houter : outer < s.scopes.size) (frame : Scope) {place : ScopeId}
    (hplace : place ∈ s.path outer) (name : String) :
    (s.addScope frame).2.local? place name = s.local? place name := by
  have hlt : place < s.scopes.size :=
    forall_mem_path (fun i j hlink => Nat.lt_trans (hearlier i j hlink)) houter place hplace
  exact local?_addScope_of_lt frame hlt

theorem owner?_addScope (hearlier : ∀ i j, s.outer? i = some j → j < i)
    (houter : outer < s.scopes.size) (hframe : frame.outer = some outer) (name : String) :
    (s.addScope frame).2.owner? s.scopes.size name =
      if (frame.local? name).isSome then some s.scopes.size else s.owner? outer name := by
  have hrest : (s.path outer).find? (fun place => ((s.addScope frame).2.local? place name).isSome) =
      s.owner? outer name := by
    apply List.find?_congr
    intro place hplace
    rw [local?_addScope_of_mem_path hearlier houter frame hplace]
  rw [owner?, path_addScope hearlier houter hframe, List.find?_cons, local?_addScope_self, hrest]
  cases frame.local? name <;> rfl

theorem mem_path_of_owner? {scope owner : ScopeId} {name : String}
    (h : s.owner? scope name = some owner) : owner ∈ s.path scope :=
  List.mem_of_find?_eq_some h

/-! ## What names mean -/

/-- The name means a binding of the scope `owner`: evaluating it gives the value
there, and a new value is given to it there. -/
structure Refers (s : Store) (scope : ScopeId) (name : String) (owner : ScopeId) (v : Value) :
    Prop where
  read : ∀ (hosts : Hosts) (m : Machine),
    (Machine.above hosts m).eval scope (.identifier name) s = .ok v s
  write : ∀ (hosts : Hosts) (m : Machine) (expression w : Value),
    m.eval scope expression s = .ok w s → (Machine.above hosts m).eval scope
        (.form [.identifier Keyword.assignment.name, .identifier name, expression]) s =
      .ok .undefined (s.bind owner name w)

/-- The name means nothing: evaluating it and giving it a value are errors, which
change no binding. -/
structure Unbound (s : Store) (scope : ScopeId) (name : String) : Prop where
  read : ∀ (hosts : Hosts) (m : Machine),
    (Machine.above hosts m).eval scope (.identifier name) s = .error (.error (.unbound name)) s
  write : ∀ (hosts : Hosts) (m : Machine) (expression w : Value),
    m.eval scope expression s = .ok w s → (Machine.above hosts m).eval scope
        (.form [.identifier Keyword.assignment.name, .identifier name, expression]) s =
      .error (.error (.unbound name)) s

/-- An assignment evaluates its expression first. -/
theorem eval_assignment {m : Machine} {scope : ScopeId} {expression w : Value} (name : String)
    (h : m.eval scope expression s = .ok w s) :
    (Machine.above hosts m).eval scope
        (.form [.identifier Keyword.assignment.name, .identifier name, expression]) s =
      (do Run.assign scope name w; pure .undefined : Run Value) s := by
  rw [SpecialForm.eval_keyword]
  exact Run.bind_of_ok h

theorem refers_of_owner? {scope owner : ScopeId} {name : String} {v : Value}
    (howner : s.owner? scope name = some owner) (hv : s.local? owner name = some v) :
    s.Refers scope name owner v where
  read _ _ := by
    apply Run.lookup_of_some
    rw [lookup?_eq_bind_owner?, howner]
    exact hv
  write _ _ _ w hexpression := by
    rw [eval_assignment name hexpression, Run.bind_of_ok (Run.assign_of_some w howner)]
    rfl

theorem unbound_of_owner? {scope : ScopeId} {name : String} (h : s.owner? scope name = none) :
    s.Unbound scope name where
  read _ _ := by
    apply Run.lookup_of_none
    rw [lookup?_eq_bind_owner?, h]
    rfl
  write _ _ _ w hexpression := by
    rw [eval_assignment name hexpression, Run.bind_of_error (Run.assign_of_none w h)]

end Store

/-! ## The store of a call -/

namespace Machine

/-- Every name either has an argument or has none. -/
theorem receives_or_misses (parameters : List String) (arguments : List Value) (name : String) :
    (∃ v, Receives parameters arguments name v) ∨ Misses parameters arguments name := by
  have hlast : ∀ count ≤ arguments.length, (∃ v, Receives parameters arguments name v) ∨
      ∀ i, count ≤ i → i < arguments.length → parameters[i]? ≠ some name := by
    intro count hcount
    induction hcount using Nat.decreasingInduction with
    | self => exact .inr fun i hle hlt => absurd hle (Nat.not_le_of_lt hlt)
    | of_succ i hi ih =>
      rcases ih with h | h
      · exact .inl h
      · by_cases hname : parameters[i]? = some name
        · exact .inl ⟨arguments[i], i, hname, List.getElem?_eq_getElem hi, h⟩
        · refine .inr fun j hle hlt => ?_
          rcases Nat.eq_or_lt_of_le hle with rfl | hj
          · exact hname
          · exact h j hj hlt
  exact (hlast 0 (Nat.zero_le _)).imp_right fun h i hi => h i (Nat.zero_le i) hi

section

variable {parameters : List String} {arguments : List Value} {name : String} {outer : ScopeId}
  {s : Store} (hearlier : ∀ i j, s.outer? i = some j → j < i) (houter : outer < s.scopes.size)

include hearlier houter

/-- Inside a call a parameter means its last argument. -/
theorem refers_of_receives {v : Value} (h : Receives parameters arguments name v) :
    (s.addScope (callScope parameters arguments outer)).2.Refers s.scopes.size name
      s.scopes.size v := by
  have hlocal := local?_callScope_of_receives outer h
  apply Store.refers_of_owner?
  · rw [Store.owner?_addScope hearlier houter (outer_callScope ..), hlocal]
    rfl
  · exact (Store.local?_addScope_self _ name).trans hlocal

/-- Inside a call the search for a name without an argument begins where the
procedure was made. -/
theorem owner?_call_of_misses (h : Misses parameters arguments name) :
    (s.addScope (callScope parameters arguments outer)).2.owner? s.scopes.size name =
      s.owner? outer name := by
  rw [Store.owner?_addScope hearlier houter (outer_callScope ..),
    local?_callScope_of_misses outer h]
  rfl

theorem refers_of_misses (h : Misses parameters arguments name) {owner : ScopeId} {v : Value}
    (howner : s.owner? outer name = some owner) (hv : s.local? owner name = some v) :
    (s.addScope (callScope parameters arguments outer)).2.Refers s.scopes.size name owner v := by
  apply Store.refers_of_owner? ((owner?_call_of_misses hearlier houter h).trans howner)
  rw [Store.local?_addScope_of_mem_path hearlier houter _ (Store.mem_path_of_owner? howner)]
  exact hv

theorem unbound_of_misses (h : Misses parameters arguments name)
    (howner : s.owner? outer name = none) :
    (s.addScope (callScope parameters arguments outer)).2.Unbound s.scopes.size name :=
  Store.unbound_of_owner? ((owner?_call_of_misses hearlier houter h).trans howner)

end

/-- The body of a procedure begins in a store in which a parameter means its last
argument.  Every name has an argument or has none.  A parameter without an argument is
not bound in the scope of the call: it means nothing if no scope binds its name where
the procedure was made, and otherwise it means what the name means there.  Arguments
beyond the parameters make no difference.  In the store every scope lies inside an
earlier one, as in every session (`Session.rooted_after`). -/
theorem call_resolves (hosts : Hosts) (m : Machine) (identity : Identity)
    (parameters : List String) (arguments : List Value) (body : List Value) {outer : ScopeId}
    {s : Store} (hearlier : ∀ i j, s.outer? i = some j → j < i)
    (houter : outer < s.scopes.size) :
    let call := s.addScope (callScope parameters arguments outer)
    let f := Value.procedure identity parameters body outer
    (above hosts m).invoke f arguments s = m.evalBody call.1 body call.2 ∧
      (above hosts m).invoke f (arguments.take parameters.length) s =
        (above hosts m).invoke f arguments s ∧
      (∀ name, (∃ v, Receives parameters arguments name v) ∨ Misses parameters arguments name) ∧
      (∀ name v, Receives parameters arguments name v → call.2.Refers call.1 name call.1 v) ∧
      ∀ name, Misses parameters arguments name →
        call.2.local? call.1 name = none ∧
        (s.owner? outer name = none → call.2.Unbound call.1 name) ∧
        ∀ owner v, s.owner? outer name = some owner → s.local? owner name = some v →
          call.2.Refers call.1 name owner v := by
  intro call f
  have hinvoke : ∀ given, (above hosts m).invoke f given s =
      m.evalBody s.scopes.size body (s.addScope (callScope parameters given outer)).2 :=
    fun _ => rfl
  refine ⟨hinvoke arguments, ?_, receives_or_misses parameters arguments, ?_, ?_⟩
  · rw [hinvoke, hinvoke, callScope_take]
  · exact fun name v h => refers_of_receives hearlier houter h
  · intro name h
    refine ⟨?_, ?_, ?_⟩
    · exact (Store.local?_addScope_self _ name).trans (local?_callScope_of_misses outer h)
    · exact unbound_of_misses hearlier houter h
    · exact fun owner v howner hv => refers_of_misses hearlier houter h howner hv

/-- Of two parameters with one name the second one counts, and a parameter without an
argument means what the root binds to its name. -/
theorem call_resolves_root :
    let s : Store := ⟨#[⟨none, [("b", .string "root")]⟩], 0, 1, "", 0⟩
    let call := s.addScope (callScope ["a", "a", "b"] [.string "first", .string "second"] 0)
    (∀ i j, s.outer? i = some j → j < i) ∧ 0 < s.scopes.size ∧
      call.2.Refers 1 "a" 1 (.string "second") ∧ call.2.Refers 1 "b" 0 (.string "root") := by
  intro s call
  have hearlier : ∀ i j, s.outer? i = some j → j < i := by
    rintro (_ | i) j h <;> cases h
  obtain ⟨-, -, -, hreceives, hmisses⟩ := call_resolves usualHosts (bottom 0) 0 ["a", "a", "b"]
    [.string "first", .string "second"] [] hearlier (show 0 < s.scopes.size by decide)
  refine ⟨hearlier, by decide, ?_, ?_⟩
  · apply hreceives
    refine ⟨1, rfl, rfl, fun j hj hlt => ?_⟩
    exact absurd hlt (Nat.not_lt_of_le hj)
  · refine (hmisses "b" ?_).2.2 0 _ rfl rfl
    intro i hi
    match i, hi with
    | 0, _ => simp
    | 1, _ => simp

/-- A parameter without an argument is evaluated to the value that the root binds to its
name, and an assignment to it changes the root. -/
theorem missing_parameter_means_root :
    let s : Store := ⟨#[⟨none, [("b", .string "root")]⟩], 0, 1, "", 0⟩
    let assignment := Value.form [.identifier "set!", .identifier "b", .string "new"]
    Misses ["a", "b"] [.string "given"] "b" ∧
      (∃ t, (ofDepth usualHosts 1 9).invoke (.procedure 0 ["a", "b"] [.identifier "b"] 0)
        [.string "given"] s = .ok (.string "root") t) ∧
      ∃ t, (ofDepth usualHosts 1 9).invoke (.procedure 0 ["a", "b"] [assignment] 0)
          [.string "given"] s = .ok .undefined t ∧
        t.lookup? 0 "b" = some (.string "new") := by
  intro s assignment
  refine ⟨?_, ⟨_, rfl⟩, _, rfl, rfl⟩
  intro i hi
  obtain rfl : i = 0 := Nat.lt_one_iff.1 hi
  simp

end Machine

end TinyLisp
