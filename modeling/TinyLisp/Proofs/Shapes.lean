import TinyLisp.Evaluator
import TinyLisp.Native.Host
import TinyLisp.Proofs.Syntax

/-!
# Forms of a wrong shape

A special form that has not the operands it takes ends with an error.  All but one
of the nine special forms look at their operands before they evaluate any.  The
one with bindings looks at each binding in its turn, when those in front of it
have been evaluated and bound.

There are five groups.

* `Value.exists_inspect`: a piece of syntax has one text in diagnostics, on every
  machine that goes deep enough.
* `SpecialForm.hasShape`: the operands that a special form takes.
* `SpecialForm.Refused`: forms that do nothing but stop.  There is one lemma for
  each special form, and `SpecialForm.refused_of_shape` for all of them.
* `SpecialForm.run_of_badBinding`: what comes before a malformed binding is
  evaluated.
* `SpecialForm.failsAtOnce_iff`: which forms of a wrong shape fail
  before anything is evaluated.
-/

namespace TinyLisp

variable {hosts : Hosts}

namespace Value

/-- Trees that are shown one by one are shown in a row. -/
theorem exists_inspectAll {items : List Value}
    (h : ∀ item ∈ items, ∃ text, ∀ limit, item.depth ≤ limit → item.inspect limit = .ok text) :
    ∃ texts, ∀ limit, depthOfAll items ≤ limit → items.mapM (inspect limit) = .ok texts := by
  induction items with
  | nil => exact ⟨[], fun _ _ => rfl⟩
  | cons item items ih =>
    obtain ⟨text, htext⟩ := h item (by simp)
    obtain ⟨texts, htexts⟩ := ih fun item hitem => h item (by simp [hitem])
    refine ⟨text :: texts, fun limit hdepth => ?_⟩
    rw [depthOfAll] at hdepth
    rw [List.mapM_cons, htext limit (by omega), htexts limit (by omega)]
    rfl

/-- Diagnostics show a tree that is not too deep, always by the same text. -/
theorem exists_inspect {tree : Value} (h : tree.IsSyntax) :
    ∃ text, ∀ limit, tree.depth ≤ limit → tree.inspect limit = .ok text := by
  induction h with
  | float value =>
    refine ⟨Double.inspect value, fun limit hdepth => ?_⟩
    obtain ⟨limit, rfl⟩ := Nat.exists_eq_add_of_le' (Nat.le_trans (depth_pos _) hdepth)
    rfl
  | string text =>
    refine ⟨(Text.quoteForDiagnostics text).toList, fun limit hdepth => ?_⟩
    obtain ⟨limit, rfl⟩ := Nat.exists_eq_add_of_le' (Nat.le_trans (depth_pos _) hdepth)
    rfl
  | identifier name =>
    refine ⟨inspectName "Symbol" name, fun limit hdepth => ?_⟩
    obtain ⟨limit, rfl⟩ := Nat.exists_eq_add_of_le' (Nat.le_trans (depth_pos _) hdepth)
    rfl
  | @form items hitems ih =>
    obtain ⟨texts, htexts⟩ := exists_inspectAll ih
    refine ⟨'[' :: joinWith ", " texts ++ [']'], fun limit hdepth => ?_⟩
    obtain ⟨limit, rfl⟩ := Nat.exists_eq_add_of_le' (Nat.le_trans (depth_pos _) hdepth)
    rw [depth] at hdepth
    rw [inspect, htexts limit (by omega)]
    rfl

end Value

/-- A store that differs from another one by new scopes only. -/
def Store.Extends (s t : Store) : Prop :=
  ∃ new : Array Scope, t = { s with scopes := s.scopes ++ new }

namespace SpecialForm

/-! ## Shapes -/

/-- A name stands for itself in a parameter list. -/
def isName : Value → Bool
  | .identifier _ => true
  | _ => false

/-- A name and an expression. -/
def isBinding : Value → Bool
  | .form [.identifier _, _] => true
  | _ => false

/-- The operands that a special form takes. -/
def hasShape : Keyword → List Value → Bool
  | .conditional, operands => operands.length == 2 || operands.length == 3
  | .definition, .identifier _ :: rest => rest.length == 1
  | .definition, .form target :: _ => !target.isEmpty && target.all isName
  | .binding, .form bindings :: _ => bindings.all isBinding
  | .abstraction, .form parameters :: _ => parameters.all isName
  | .guard, _ :: _ | .loop, _ :: _ => true
  | .assignment, [.identifier _, _] => true
  | .quotation, [_] => true
  | .sequence, _ => true
  | _, _ => false

/-- A shape problem that shows an operand. -/
theorem exists_shown {α : Type} (keyword : Keyword) (problem : String → ShapeProblem)
    {operand : Value} (h : operand.IsSyntax) :
    ∃ shown, ∀ m : Machine, operand.depth ≤ m.depth →
      (do malformed keyword (problem (← m.inspected operand)) : Run α) =
        malformed keyword (problem shown) := by
  obtain ⟨text, htext⟩ := Value.exists_inspect h
  refine ⟨String.ofList text, fun m hdepth => ?_⟩
  rw [Machine.inspected, Value.inspected, htext m.depth hdepth]
  rfl

/-- A parameter list with something else than names in it. -/
theorem exists_badParameter (keyword : Keyword) {parameters : List Value}
    (htrees : ∀ parameter ∈ parameters, parameter.IsSyntax)
    (h : parameters.all isName = false) :
    ∃ problem, ∀ m : Machine, Value.depthOfAll parameters ≤ m.depth →
      parameterNames m keyword parameters = malformed keyword problem := by
  induction parameters with
  | nil => cases h
  | cons parameter rest ih =>
    obtain ⟨hparameter, hrest⟩ := List.forall_mem_cons.1 htrees
    by_cases hname : ∃ name, parameter = .identifier name
    · obtain ⟨name, rfl⟩ := hname
      obtain ⟨problem, hproblem⟩ := ih hrest (by simpa [isName] using h)
      refine ⟨problem, fun m hdepth => ?_⟩
      rw [Value.depthOfAll] at hdepth
      rw [parameterNames, hproblem m (by omega)]
      rfl
    · obtain ⟨shown, hshown⟩ := exists_shown keyword .badParameter hparameter
      refine ⟨.badParameter shown, fun m hdepth => ?_⟩
      rw [Value.depthOfAll] at hdepth
      rw [parameterNames]
      · exact hshown m (by omega)
      · exact fun name heq => hname ⟨name, heq⟩

/-! ## Forms that are refused -/

/-- Whatever the machine evaluates its operands to, the form does nothing but stop with one shape
problem.  The machine must go deep enough to show the operands. -/
def Refused (keyword : Keyword) (operands : List Value) : Prop :=
  ∃ problem, ∀ m : Machine, Value.depthOfAll operands ≤ m.depth → ∀ scope,
    run m scope keyword operands = malformed keyword problem

theorem refused_of_eq {keyword : Keyword} {operands : List Value} (problem : ShapeProblem)
    (h : ∀ m scope, run m scope keyword operands = malformed keyword problem) :
    Refused keyword operands :=
  ⟨problem, fun m _ scope => h m scope⟩

/-- A form that is refused for its first operand. -/
theorem refused_of_shown {keyword : Keyword} (problem : String → ShapeProblem) {first : Value}
    {rest : List Value} (hfirst : first.IsSyntax)
    (h : ∀ m scope, run m scope keyword (first :: rest) =
      (do malformed keyword (problem (← m.inspected first)))) :
    Refused keyword (first :: rest) := by
  obtain ⟨shown, hshown⟩ := exists_shown keyword problem hfirst
  refine ⟨problem shown, fun m hdepth scope => ?_⟩
  rw [Value.depthOfAll] at hdepth
  rw [h, hshown m (by omega)]

theorem closure_of_badParameter {m : Machine} {keyword : Keyword} {problem : ShapeProblem}
    {parameters : List Value} (h : parameterNames m keyword parameters = malformed keyword problem)
    (body : List Value) (scope : ScopeId) :
    closure m keyword parameters body scope = malformed keyword problem := by
  rw [closure, h]
  rfl

theorem refused_conditional {operands : List Value}
    (h : hasShape .conditional operands = false) : Refused .conditional operands := by
  match operands with
  | [] | [_] | _ :: _ :: _ :: _ :: _ => exact refused_of_eq _ fun _ _ => rfl
  | [_, _] | [_, _, _] => cases h

/-- A definition of a procedure whose name or parameters are no names. -/
theorem refused_procedure {target body : List Value} (htrees : ∀ item ∈ target, item.IsSyntax)
    (h : hasShape .definition (.form target :: body) = false) :
    Refused .definition (.form target :: body) := by
  match target with
  | [] => exact refused_of_eq _ fun _ _ => rfl
  | first :: parameters =>
    obtain ⟨hfirst, hparameters⟩ := List.forall_mem_cons.1 htrees
    cases hfirst with
    | identifier name =>
      obtain ⟨problem, hproblem⟩ := exists_badParameter .definition hparameters h
      refine ⟨problem, fun m hdepth scope => ?_⟩
      rw [Value.depthOfAll, Value.depth, Value.depthOfAll] at hdepth
      rw [run, definition, closure_of_badParameter (hproblem m (by omega))]
      rfl
    | float | string | form => exact refused_of_eq _ fun _ _ => rfl

theorem refused_definition {operands : List Value} (htrees : ∀ operand ∈ operands, operand.IsSyntax)
    (h : hasShape .definition operands = false) : Refused .definition operands := by
  match operands with
  | [] => exact refused_of_eq _ fun _ _ => rfl
  | target :: rest =>
    cases htrees target List.mem_cons_self with
    | float value => exact refused_of_shown .badTarget (.float value) fun _ _ => rfl
    | string text => exact refused_of_shown .badTarget (.string text) fun _ _ => rfl
    | identifier name =>
      match rest with
      | [_] => cases h
      | [] | _ :: _ :: _ => exact refused_of_eq _ fun _ _ => rfl
    | form hitems => exact refused_procedure hitems h

theorem refused_abstraction {operands : List Value}
    (htrees : ∀ operand ∈ operands, operand.IsSyntax)
    (h : hasShape .abstraction operands = false) : Refused .abstraction operands := by
  match operands with
  | [] => exact refused_of_eq _ fun _ _ => rfl
  | parameters :: body =>
    cases htrees parameters List.mem_cons_self with
    | float value => exact refused_of_shown .badParameters (.float value) fun _ _ => rfl
    | string text => exact refused_of_shown .badParameters (.string text) fun _ _ => rfl
    | identifier name => exact refused_of_shown .badParameters (.identifier name) fun _ _ => rfl
    | form hitems =>
      obtain ⟨problem, hproblem⟩ := exists_badParameter .abstraction hitems h
      refine ⟨problem, fun m hdepth scope => ?_⟩
      rw [Value.depthOfAll, Value.depth] at hdepth
      exact closure_of_badParameter (hproblem m (by omega)) body scope

theorem refused_assignment {operands : List Value}
    (htrees : ∀ operand ∈ operands, operand.IsSyntax)
    (h : hasShape .assignment operands = false) : Refused .assignment operands := by
  match operands with
  | [] => exact refused_of_eq _ fun _ _ => rfl
  | [_] | _ :: _ :: _ :: _ =>
    exact refused_of_eq .assignmentOperands fun m scope => by simp [run, assignment]
  | [target, expression] =>
    cases htrees target List.mem_cons_self with
    | identifier name => cases h
    | float value => exact refused_of_shown .badVariable (.float value) fun _ _ => rfl
    | string text => exact refused_of_shown .badVariable (.string text) fun _ _ => rfl
    | form hitems => exact refused_of_shown .badVariable (.form hitems) fun _ _ => rfl

/-- Every form of a wrong shape is refused, apart from one with a list of bindings. -/
theorem refused_of_shape {keyword : Keyword} {operands : List Value}
    (htrees : ∀ operand ∈ operands, operand.IsSyntax) (h : hasShape keyword operands = false)
    (hbindings : ∀ bindings body, keyword = .binding → operands ≠ .form bindings :: body) :
    Refused keyword operands := by
  cases keyword with
  | conditional => exact refused_conditional h
  | definition => exact refused_definition htrees h
  | binding =>
    match operands with
    | [] => exact refused_of_eq _ fun _ _ => rfl
    | first :: body =>
      cases htrees first List.mem_cons_self with
      | form => exact absurd rfl (hbindings _ body rfl)
      | float | string | identifier => exact refused_of_eq _ fun _ _ => rfl
  | abstraction => exact refused_abstraction htrees h
  | sequence => cases h
  | guard =>
    match operands with
    | [] => exact refused_of_eq _ fun _ _ => rfl
    | _ :: _ => cases h
  | loop =>
    match operands with
    | [] => exact refused_of_eq _ fun _ _ => rfl
    | _ :: _ => cases h
  | assignment => exact refused_assignment htrees h
  | quotation =>
    match operands with
    | [] | _ :: _ :: _ => exact refused_of_eq _ fun _ _ => rfl
    | [_] => cases h

/-! ## Bindings -/

theorem exists_name_of_isBinding {binding : Value} (h : isBinding binding = true) :
    ∃ name expression, binding = .form [.identifier name, expression] := by
  unfold isBinding at h
  split at h
  · exact ⟨_, _, rfl⟩
  · cases h

/-- The bindings in front of a malformed one are evaluated in turn, and those behind it are not. -/
theorem bindInTurn_of_bad {m : Machine} {bad : Value} (hbad : isBinding bad = false)
    {problem : ShapeProblem}
    (hproblem : (do malformed .binding (.badBinding (← m.inspected bad)) : Run Unit) =
      malformed .binding problem)
    {front : List Value} (hfront : front.all isBinding = true) (scope : ScopeId)
    (rest : List Value) :
    bindInTurn m scope (front ++ bad :: rest) =
      (do bindInTurn m scope front; malformed .binding problem) := by
  induction front with
  | nil =>
    have hfirst : bindInTurn m scope (bad :: rest) =
        (do malformed .binding (.badBinding (← m.inspected bad))) := by
      rw [bindInTurn]
      rintro name expression rfl
      cases hbad
    exact hfirst.trans hproblem
  | cons binding front ih =>
    rw [List.all_cons, Bool.and_eq_true] at hfront
    obtain ⟨name, expression, rfl⟩ := exists_name_of_isBinding hfront.1
    simp only [List.cons_append, bindInTurn, ih hfront.2, bind_assoc]

/-- What a form with bindings does up to its first malformed one. -/
theorem run_of_badBinding {bad : Value} (front rest body : List Value) (htrees : bad.IsSyntax)
    (hfront : front.all isBinding = true) (hbad : isBinding bad = false) :
    ∃ problem, ∀ m : Machine, Value.depthOfAll (.form (front ++ bad :: rest) :: body) ≤ m.depth →
      ∀ scope, run m scope .binding (.form (front ++ bad :: rest) :: body) = (do
        let inner ← Run.newScope (.empty (some scope))
        bindInTurn m inner front
        malformed .binding problem) := by
  obtain ⟨shown, hshown⟩ := exists_shown .binding .badBinding htrees
  refine ⟨.badBinding shown, fun m hdepth scope => ?_⟩
  have hbadDepth : bad.depth ≤ Value.depthOfAll (front ++ bad :: rest) :=
    Value.depth_le_depthOfAll (by simp)
  rw [Value.depthOfAll, Value.depth] at hdepth
  have hturn := bindInTurn_of_bad hbad (hshown m (by omega)) hfront
  simp only [run, binding, hturn, bind_assoc]
  rfl

/-! ## Forms that fail at once -/

/-- Parameters that are names are read without any effect. -/
theorem parameterNames_identifiers (m : Machine) (keyword : Keyword) (names : List String) :
    parameterNames m keyword (names.map .identifier) = pure names := by
  induction names with
  | nil => rfl
  | cons name names ih =>
    rw [List.map_cons, parameterNames, ih]
    rfl

theorem closure_identifiers (m : Machine) (keyword : Keyword) (parameters : List String)
    (body : List Value) (scope : ScopeId) :
    closure m keyword (parameters.map .identifier) body scope =
      (do return .procedure (← Run.reserve 1) parameters body scope) := by
  rw [closure, parameterNames_identifiers, pure_bind]

theorem eval_keyword (m : Machine) (scope : ScopeId) (keyword : Keyword) (operands : List Value) :
    (Machine.above hosts m).eval scope (.form (.identifier keyword.name :: operands)) =
      run m scope keyword operands := by
  show m.evalForm scope (.identifier keyword.name) operands = _
  rw [Machine.evalForm, Machine.keyword?, Keyword.ofName?_name]

/-- On every machine, whatever the expressions of the form would be evaluated to, the form ends
with the same error of its shape, and no scope and no printed text is changed.  The machine must
go deep enough to show the operands. -/
def FailsAtOnce (hosts : Hosts) (keyword : Keyword) (operands : List Value) : Prop :=
  ∃ problem, ∀ m : Machine, Value.depthOfAll operands ≤ m.depth → ∀ scope s, ∃ t,
    (Machine.above hosts m).eval scope (.form (.identifier keyword.name :: operands)) s =
      .error (.error (.invalidForm keyword problem)) t ∧ s.Extends t

/-- The form has a first binding that is evaluated. -/
def startsWithBinding : Keyword → List Value → Bool
  | .binding, .form (first :: _) :: _ => isBinding first
  | _, _ => false

theorem failsAtOnce_of_refused {keyword : Keyword} {operands : List Value}
    (h : Refused keyword operands) : FailsAtOnce hosts keyword operands := by
  obtain ⟨problem, hproblem⟩ := h
  refine ⟨problem, fun m hdepth scope s => ⟨s, ?_, #[], by simp⟩⟩
  rw [eval_keyword, hproblem m hdepth]
  rfl

/-- A machine that evaluates nothing. -/
def idle (depth : Nat) : Machine :=
  { Machine.bottom 0 with depth := depth }

theorem not_failsAtOnce {bindings body : List Value} {name : String} {expression : Value} :
    ¬ FailsAtOnce hosts .binding
      (.form (.form [.identifier name, expression] :: bindings) :: body) := by
  rintro ⟨problem, hproblem⟩
  obtain ⟨t, heval, -⟩ := hproblem (idle _) (Nat.le_refl _) 0 .empty
  rw [eval_keyword] at heval
  cases heval

/-- Nothing stands in front of a malformed first binding. -/
theorem failsAtOnce_of_badBinding {bad : Value} (rest body : List Value) (htrees : bad.IsSyntax)
    (hbad : isBinding bad = false) : FailsAtOnce hosts .binding (.form (bad :: rest) :: body) := by
  obtain ⟨problem, hproblem⟩ := run_of_badBinding [] rest body htrees rfl hbad
  refine ⟨problem, fun m hdepth scope s => ?_⟩
  refine ⟨(s.addScope (.empty (some scope))).2, ?_, #[.empty (some scope)], rfl⟩
  have hrun : run m scope .binding (.form (bad :: rest) :: body) = _ := hproblem m hdepth scope
  rw [eval_keyword, hrun]
  rfl

theorem failsAtOnce_iff_of_bindings {bindings body : List Value}
    (htrees : (Value.form bindings).IsSyntax)
    (hshape : hasShape .binding (.form bindings :: body) = false) :
    FailsAtOnce hosts .binding (.form bindings :: body) ↔
      startsWithBinding .binding (.form bindings :: body) = false := by
  match bindings with
  | [] => cases hshape
  | first :: rest =>
    cases hfirst : isBinding first with
    | true =>
      obtain ⟨name, expression, rfl⟩ := exists_name_of_isBinding hfirst
      exact iff_of_false not_failsAtOnce (by simp [startsWithBinding, hfirst])
    | false =>
      have hfirstTree : first.IsSyntax := by
        cases htrees with
        | form hitems => exact hitems first List.mem_cons_self
      exact iff_of_true (failsAtOnce_of_badBinding rest body hfirstTree hfirst)
        (by simp [startsWithBinding, hfirst])

/-- A form of a wrong shape fails at once if it is no form with bindings, or if its first binding is
malformed already.  Of any other one, the well-formed bindings in front of the first malformed one
are evaluated and bound before it fails. -/
theorem failsAtOnce_iff {keyword : Keyword} {operands : List Value}
    (htrees : ∀ operand ∈ operands, operand.IsSyntax) (hshape : hasShape keyword operands = false) :
    (FailsAtOnce hosts keyword operands ↔ startsWithBinding keyword operands = false) ∧
    ∀ front bad rest body, keyword = .binding → operands = .form (front ++ bad :: rest) :: body →
      front.all isBinding = true → isBinding bad = false →
      ∃ problem, ∀ m : Machine, Value.depthOfAll operands ≤ m.depth → ∀ scope,
        (Machine.above hosts m).eval scope (.form (.identifier keyword.name :: operands)) = (do
          let inner ← Run.newScope (.empty (some scope))
          bindInTurn m inner front
          malformed .binding problem) := by
  constructor
  · by_cases hbindings : ∃ bindings body, keyword = .binding ∧ operands = .form bindings :: body
    · obtain ⟨bindings, body, rfl, rfl⟩ := hbindings
      exact failsAtOnce_iff_of_bindings (htrees _ List.mem_cons_self) hshape
    · have hrefused : Refused keyword operands := refused_of_shape htrees hshape
        fun bindings body hkeyword hoperands => hbindings ⟨bindings, body, hkeyword, hoperands⟩
      refine iff_of_true (failsAtOnce_of_refused hrefused) ?_
      unfold startsWithBinding
      split
      · exact absurd ⟨_, _, rfl, rfl⟩ hbindings
      · rfl
  · rintro front bad rest body rfl rfl hfront hbad
    have hbadTree : bad.IsSyntax := by
      cases htrees _ List.mem_cons_self with
      | form hitems => exact hitems bad (by simp)
    obtain ⟨problem, hproblem⟩ := run_of_badBinding front rest body hbadTree hfront hbad
    refine ⟨problem, fun m hdepth scope => ?_⟩
    rw [eval_keyword, hproblem m hdepth scope]

/-- A procedure with a string among its parameters. -/
theorem failsAtOnce_iff_parameter :
    hasShape .definition [.form [.identifier "f", .string "x"], .identifier "x"] = false ∧
      FailsAtOnce usualHosts .definition
        [.form [.identifier "f", .string "x"], .identifier "x"] := by
  refine ⟨by decide, (failsAtOnce_iff ?_ (by decide)).1.2 (by decide)⟩
  intro operand hoperand
  simp only [List.mem_cons, List.not_mem_nil, or_false] at hoperand
  rcases hoperand with rfl | rfl
  · refine .form fun item hitem => ?_
    simp only [List.mem_cons, List.not_mem_nil, or_false] at hitem
    rcases hitem with rfl | rfl
    · exact .identifier "f"
    · exact .string "x"
  · exact .identifier "x"

/-- The assignment in the first binding has been made when the second binding, which is no binding,
is met. -/
theorem binding_changes_scope_before_failing :
    let s : Store := ⟨#[⟨none, [("y", .string "old")]⟩], 0, 0, "", 0⟩
    let operands : List Value := [.form [.form [.identifier "x",
      .form [.identifier "set!", .identifier "y", .string "new"]], .identifier "z"], .string "body"]
    hasShape .binding operands = false ∧ s.lookup? 0 "y" = some (.string "old") ∧
      ∃ problem t,
        (Machine.ofDepth usualHosts 1 9).eval 0 (.form (.identifier "let" :: operands)) s =
          .error (.error (.invalidForm .binding problem)) t ∧
        t.lookup? 0 "y" = some (.string "new") := by
  intro s operands
  exact ⟨rfl, rfl, _, _, rfl, rfl⟩

end SpecialForm

end TinyLisp
