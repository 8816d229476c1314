import TinyLisp.Proofs.Freshness
import TinyLisp.Proofs.Limits
import TinyLisp.Proofs.Shapes

/-!
# Derived forms

Several forms mean the same as forms that are put together from others, in every
scope and every store, whatever is bound to the names of the special forms.

There are five groups.

* `Machine.Settles`: evaluation without limits.
* `Keyword.form` and `Expands`: forms and what they stand for.
* What the two sides do when they have limits.  They go down to different depths,
  so each side is compared with the other one under wider limits.
* Bindings, which stand for the invocation of a procedure.  The procedure is an
  object that the form does not need, so identities that come later differ.
* `Machine.expansions_agree`: all of them.
-/

namespace TinyLisp

variable {hosts : Hosts}

/-! ## Evaluation without limits -/

/-- A limit has been reached. -/
def Stop.Limit (stop : Stop) : Prop :=
  stop = .tooDeep ∨ stop = .tooLong

theorem Stop.not_limit_fault (fault : Fault) : ¬ (Stop.fault fault).Limit := by
  rintro (h | h) <;> cases h

theorem Stop.limit_rename_iff {new : Identity → Identity} {stop : Stop} :
    (stop.rename new).Limit ↔ stop.Limit := by
  unfold Stop.rename
  split
  · constructor <;> rintro (h | h) <;> cases h
  · rfl

/-- Evaluations without limits. -/
abbrev Simulation.unlimited : Simulation :=
  .limits Stop.Limit Stop.not_limit_fault

/-- A run has come to its end without reaching a limit. -/
def Run.Finished (result : EStateM.Result Stop Store Value) : Prop :=
  ∀ stop after, stop.Limit → result ≠ .error stop after

theorem Run.RenamedResult.finished_iff {new : Identity → Identity}
    {result result' : EStateM.Result Stop Store Value} (h : RenamedResult new result result') :
    Finished result' ↔ Finished result := by
  cases h with
  | ok => exact ⟨fun _ _ _ _ h => (by cases h), fun _ _ _ _ h => (by cases h)⟩
  | @error stop s t =>
    constructor
    · rintro h _ _ hlimit ⟨⟩
      exact h _ t (Stop.limit_rename_iff.2 hlimit) rfl
    · rintro h _ _ hlimit ⟨⟩
      exact h stop s (Stop.limit_rename_iff.1 hlimit) rfl

namespace Machine

/-- The evaluation comes to an end when its limits are wide enough. -/
def Settles (hosts : Hosts) (scope : ScopeId) (expression : Value) (s : Store)
    (result : EStateM.Result Stop Store Value) : Prop :=
  (∃ rounds depth, (ofDepth hosts rounds depth).eval scope expression s = result) ∧
    Run.Finished result

theorem follows_wider (hosts : Hosts) [hosts.Uniform] {rounds rounds' depth depth' : Nat}
    (hrounds : rounds ≤ rounds') (hdepth : depth ≤ depth') :
    (ofDepth hosts rounds depth).Follows .unlimited (ofDepth hosts rounds' depth') :=
  follows_ofDepth hosts (.of_le (.inr rfl) hrounds) (.of_le (.inl rfl) hdepth)

variable {scope : ScopeId} {expression a b : Value} {s : Store}
  {result result' : EStateM.Result Stop Store Value}

/-- Beyond a limit, only the other run counts. -/
theorem eq_of_sameUnless (hresult : Run.Finished result)
    (h : Run.SameUnless Stop.Limit result result') : result' = result := by
  rcases h with ⟨stop, after, hlimit, heq⟩ | heq
  · exact absurd heq (hresult stop after hlimit)
  · exact heq

/-- Wider limits make no difference. -/
theorem Settles.wider [hosts.Uniform] (h : Settles hosts scope expression s result) :
    ∃ rounds depth, ∀ rounds' depth', rounds ≤ rounds' → depth ≤ depth' →
      (ofDepth hosts rounds' depth').eval scope expression s = result := by
  obtain ⟨⟨rounds, depth, heval⟩, hresult⟩ := h
  refine ⟨rounds, depth, fun rounds' depth' hrounds hdepth => ?_⟩
  have hfollows := (follows_wider hosts hrounds hdepth).evalSame scope expression
  have hsame := Run.follows_limits_iff.1 hfollows s
  rw [heval] at hsame
  exact eq_of_sameUnless hresult hsame

/-- An evaluation settles in one way only. -/
theorem Settles.unique [hosts.Uniform] (h : Settles hosts scope expression s result)
    (h' : Settles hosts scope expression s result') : result = result' := by
  obtain ⟨rounds, depth, hwider⟩ := h.wider
  obtain ⟨rounds', depth', hwider'⟩ := h'.wider
  rw [← hwider (max rounds rounds') (max depth depth') (Nat.le_max_left ..) (Nat.le_max_left ..)]
  exact hwider' _ _ (Nat.le_max_right ..) (Nat.le_max_right ..)

/-- An evaluation that does the same under wider limits settles in the same way. -/
theorem Settles.transfer [hosts.Uniform] {t : Store} (h : Settles hosts scope a s result)
    (hsame : ∀ rounds depth, ∃ rounds' depth', Run.SameUnless Stop.Limit
      ((ofDepth hosts rounds (depth + 3)).eval scope a s)
      ((ofDepth hosts rounds' depth').eval scope b t)) :
    Settles hosts scope b t result := by
  obtain ⟨rounds, depth, hwider⟩ := h.wider
  obtain ⟨rounds', depth', hsame⟩ := hsame rounds depth
  rw [hwider rounds (depth + 3) (Nat.le_refl _) (Nat.le_add_right ..)] at hsame
  exact ⟨⟨rounds', depth', eq_of_sameUnless h.2 hsame⟩, h.2⟩

theorem Settles.follow [hosts.Uniform] (h : Settles hosts scope a s result)
    (hfollows : ∀ rounds depth, ∃ rounds' depth', Run.Follows .unlimited id
      ((ofDepth hosts rounds (depth + 3)).eval scope a)
      ((ofDepth hosts rounds' depth').eval scope b)) :
    Settles hosts scope b s result := by
  apply h.transfer
  intro rounds depth
  obtain ⟨rounds', depth', hfollows⟩ := hfollows rounds depth
  exact ⟨rounds', depth', Run.follows_limits_iff.1 hfollows s⟩

end Machine

/-! ## Forms and what they stand for -/

/-- A form with a keyword at its head. -/
def Keyword.form (keyword : Keyword) (operands : List Value) : Value :=
  .form (.identifier keyword.name :: operands)

/-- The second form is what the first one stands for, object for object. -/
inductive Expands : Value → Value → Prop where
  /-- A named procedure. -/
  | definition (name : String) (parameters : List String) (body : List Value) :
      Expands
        (Keyword.definition.form
          (.form (.identifier name :: parameters.map .identifier) :: body))
        (Keyword.definition.form
          [.identifier name, Keyword.abstraction.form (.form (parameters.map .identifier) :: body)])
  | guard (test : Value) (body : List Value) :
      Expands (Keyword.guard.form (test :: body))
        (Keyword.conditional.form [test, Keyword.sequence.form body])
  | loop (test : Value) (body : List Value) :
      Expands (Keyword.loop.form (test :: body))
        (Keyword.conditional.form
          [test, Keyword.sequence.form (body ++ [Keyword.loop.form (test :: body)])])
  /-- A sequence inside a sequence. -/
  | sequence (front : List Value) (first : Value) (others rest : List Value) :
      Expands (Keyword.sequence.form (front ++ Keyword.sequence.form (first :: others) :: rest))
        (Keyword.sequence.form (front ++ first :: others ++ rest))

/-- Names and expressions as they are written in a binding list. -/
def bindingList (bindings : List (String × Value)) : List Value :=
  bindings.map fun binding => .form [.identifier binding.1, binding.2]

/-- Names and expressions as they are defined one after the other. -/
def definitionList (bindings : List (String × Value)) : List Value :=
  bindings.map fun binding => Keyword.definition.form [.identifier binding.1, binding.2]

/-- Bindings in front of a body. -/
def bindingForm (bindings : List (String × Value)) (body : List Value) : Value :=
  Keyword.binding.form (.form (bindingList bindings) :: body)

/-- A procedure without parameters that defines the names and goes on with the
body, invoked at once. -/
def bindingExpansion (bindings : List (String × Value)) (body : List Value) : Value :=
  .form [Keyword.abstraction.form (.form [] :: definitionList bindings ++ body)]

/-! ## Both sides with limits -/

namespace Machine

variable {m m' : Machine} {scope : ScopeId}

theorem eval_above_form (m : Machine) (scope : ScopeId) (keyword : Keyword)
    (operands : List Value) :
    (above hosts m).eval scope (keyword.form operands) = SpecialForm.run m scope keyword operands :=
  SpecialForm.eval_keyword m scope keyword operands

theorem follows_same (run : Run Value) : Run.Follows .unlimited id run run :=
  Run.follows_limits_iff.2 fun _ => .inr rfl

theorem Follows.lastOfSame (h : m.Follows .unlimited m') (scope : ScopeId) (before : Value)
    (body : List Value) :
    Run.Follows .unlimited id (Run.lastOf before (m.eval scope) body)
      (Run.lastOf before (m'.eval scope) body) := by
  have hrow : Run.Follows .unlimited id (body.foldlM (fun _ item => m.eval scope item) before)
      ((body.map id).foldlM (fun _ item => m'.eval scope item) (id before)) :=
    Run.follows_foldlM fun _ item _ => h.evalSame scope item
  rwa [List.map_id] at hrow

theorem Follows.branchSame (h : m.Follows .unlimited m') (scope : ScopeId) (test : Value)
    {run run' other other' : Run Value} (hrun : Run.Follows .unlimited id run run')
    (hother : Run.Follows .unlimited id other other') :
    Run.Follows .unlimited id (do if (← m.eval scope test).isTruthy then run else other)
      (do if (← m'.eval scope test).isTruthy then run' else other') :=
  Run.follows_bind (h.evalSame scope test) fun _ => Run.follows_ite .rfl hrun hother

theorem Follows.repeatWhileSame (h : m.Follows .unlimited m') (scope : ScopeId) (test : Value)
    (body : List Value) {rounds rounds' : Nat} (hrounds : rounds ≤ rounds') :
    Run.Follows .unlimited id (SpecialForm.repeatWhile m scope test body rounds)
      (SpecialForm.repeatWhile m' scope test body rounds') := by
  have hrepeat : Run.Follows .unlimited (Value.rename id) _
      (SpecialForm.repeatWhile m' scope (test.rename id) (body.map (Value.rename id)) rounds') :=
    SpecialForm.follows_repeatWhile h scope test body (.of_le (.inr rfl) hrounds)
  rwa [Value.rename_id, Value.rename_id_eq, List.map_id] at hrepeat

theorem Follows.bindInTurnSame (h : m.Follows .unlimited m') (scope : ScopeId)
    (bindings : List Value) :
    Run.Follows .unlimited id (SpecialForm.bindInTurn m scope bindings)
      (SpecialForm.bindInTurn m' scope bindings) := by
  have hturn : Run.Follows .unlimited id _
      (SpecialForm.bindInTurn m' scope (bindings.map (Value.rename id))) :=
    SpecialForm.follows_bindInTurn h scope bindings
  rwa [Value.rename_id_eq, List.map_id] at hturn

/-- A named procedure is made in the same way, one level further down. -/
theorem eval_definition_expansion (hosts : Hosts) (m : Machine) (scope : ScopeId) (name : String)
    (parameters : List String) (body : List Value) :
    (above hosts (above hosts m)).eval scope
        (Keyword.definition.form [.identifier name,
          Keyword.abstraction.form (.form (parameters.map .identifier) :: body)]) =
      (above hosts m).eval scope
        (Keyword.definition.form
          (.form (.identifier name :: parameters.map .identifier) :: body)) := by
  rw [eval_above_form, eval_above_form]
  show (do
      let value ← (above hosts m).eval scope _
      Run.bind scope name value
      pure .undefined : Run Value) =
    (do
      let value ← SpecialForm.closure m .definition _ body scope
      Run.bind scope name value
      pure .undefined)
  rw [eval_above_form]
  show (do
      let value ← SpecialForm.closure m .abstraction _ body scope
      Run.bind scope name value
      pure .undefined : Run Value) = _
  rw [SpecialForm.closure_identifiers, SpecialForm.closure_identifiers]

theorem follows_guard_expansion (h : m.Follows .unlimited (above hosts m'))
    (h' : m.Follows .unlimited m') (scope : ScopeId) (test : Value) (body : List Value) :
    Run.Follows .unlimited id ((above hosts m).eval scope (Keyword.guard.form (test :: body)))
      ((above hosts (above hosts m')).eval scope
        (Keyword.conditional.form [test, Keyword.sequence.form body])) := by
  rw [eval_above_form, eval_above_form]
  apply h.branchSame scope test _ (follows_same _)
  rw [eval_above_form]
  exact h'.lastOfSame scope .undefined body

theorem follows_guard_of_expansion (h : (above hosts m).Follows .unlimited m')
    (h' : m.Follows .unlimited m') (scope : ScopeId) (test : Value) (body : List Value) :
    Run.Follows .unlimited id
      ((above hosts (above hosts m)).eval scope
        (Keyword.conditional.form [test, Keyword.sequence.form body]))
      ((above hosts m').eval scope (Keyword.guard.form (test :: body))) := by
  rw [eval_above_form, eval_above_form]
  apply h.branchSame scope test _ (follows_same _)
  rw [eval_above_form]
  exact h'.lastOfSame scope .undefined body

/-- The last of several forms. -/
theorem evalBody_concat (m : Machine) (scope : ScopeId) (body : List Value) (last : Value) :
    m.evalBody scope (body ++ [last]) =
      (do let _ ← m.evalBody scope body; m.eval scope last) := by
  rw [evalBody, Run.lastOf_append]
  apply bind_congr
  intro before
  simp [Run.lastOf]

/-- What a loop does when it is put as one round and the same loop again. -/
theorem eval_loop_expansion (m : Machine) (scope : ScopeId) (test : Value) (body : List Value) :
    (above hosts (above hosts (above hosts m))).eval scope
        (Keyword.conditional.form
          [test, Keyword.sequence.form (body ++ [Keyword.loop.form (test :: body)])]) =
      (do
        if (← (above hosts (above hosts m)).eval scope test).isTruthy then
          let _ ← (above hosts m).evalBody scope body
          SpecialForm.repeatWhile m scope test body m.rounds
        else pure .undefined) := by
  have hsequence : (above hosts (above hosts m)).eval scope
      (Keyword.sequence.form (body ++ [Keyword.loop.form (test :: body)])) =
      (do
        let _ ← (above hosts m).evalBody scope body
        SpecialForm.repeatWhile m scope test body m.rounds) := by
    rw [eval_above_form]
    show (above hosts m).evalBody scope _ = _
    rw [evalBody_concat, eval_above_form]
    rfl
  rw [eval_above_form]
  show (do
    if (← (above hosts (above hosts m)).eval scope test).isTruthy then
      (above hosts (above hosts m)).eval scope _
    else pure .undefined) = _
  rw [hsequence]

/-- One round of a loop is taken apart from the others, so the loop has one more. -/
theorem follows_loop_expansion [hosts.Uniform] (rounds depth : Nat) (scope : ScopeId)
    (test : Value) (body : List Value) :
    Run.Follows .unlimited id
      ((ofDepth hosts rounds (depth + 1)).eval scope (Keyword.loop.form (test :: body)))
      ((ofDepth hosts rounds (depth + 3)).eval scope
        (Keyword.conditional.form
          [test, Keyword.sequence.form (body ++ [Keyword.loop.form (test :: body)])])) := by
  have hloop : (ofDepth hosts rounds (depth + 1)).eval scope (Keyword.loop.form (test :: body)) =
      SpecialForm.repeatWhile (ofDepth hosts rounds depth) scope test body rounds := by
    rw [ofDepth, eval_above_form]
    show SpecialForm.repeatWhile _ scope test body (ofDepth hosts rounds depth).rounds = _
    rw [rounds_ofDepth]
  rw [hloop, ofDepth, ofDepth, ofDepth, eval_loop_expansion, rounds_ofDepth]
  cases rounds with
  | zero => exact Run.follows_excused (.inr rfl)
  | succ rounds =>
    have hwider := fun more =>
      follows_wider hosts (Nat.le_refl (rounds + 1)) (Nat.le_add_right depth more)
    apply (hwider 2).branchSame scope test _ (follows_same _)
    apply Run.follows_bind ((hwider 1).lastOfSame scope .undefined body)
    exact fun _ => (hwider 0).repeatWhileSame scope test body (Nat.le_succ rounds)

theorem follows_loop_of_expansion [hosts.Uniform] (rounds depth : Nat) (scope : ScopeId)
    (test : Value) (body : List Value) :
    Run.Follows .unlimited id
      ((ofDepth hosts rounds (depth + 3)).eval scope
        (Keyword.conditional.form
          [test, Keyword.sequence.form (body ++ [Keyword.loop.form (test :: body)])]))
      ((ofDepth hosts (rounds + 1) (depth + 3)).eval scope (Keyword.loop.form (test :: body))) := by
  have hloop : (ofDepth hosts (rounds + 1) (depth + 3)).eval scope
      (Keyword.loop.form (test :: body)) =
        SpecialForm.repeatWhile (ofDepth hosts (rounds + 1) (depth + 2)) scope test body
          (rounds + 1) := by
    rw [ofDepth, eval_above_form]
    show SpecialForm.repeatWhile _ scope test body
      (ofDepth hosts (rounds + 1) (depth + 2)).rounds = _
    rw [rounds_ofDepth]
  rw [hloop, ofDepth, ofDepth, ofDepth, eval_loop_expansion, rounds_ofDepth]
  have hwider : ∀ depth', depth' ≤ depth + 2 →
      (ofDepth hosts rounds depth').Follows .unlimited (ofDepth hosts (rounds + 1) (depth + 2)) :=
    fun depth' hdepth => follows_wider hosts (Nat.le_succ rounds) hdepth
  apply (hwider (depth + 2) (Nat.le_refl _)).branchSame scope test _ (follows_same _)
  apply Run.follows_bind ((hwider (depth + 1) (Nat.le_succ _)).lastOfSame scope .undefined body)
  exact fun _ =>
    (hwider depth (Nat.le_add_right ..)).repeatWhileSame scope test body (Nat.le_refl _)

/-- Forms in three groups, of which the middle one is not empty. -/
theorem evalBody_splice (m : Machine) (scope : ScopeId) (front : List Value) (first : Value)
    (others rest : List Value) :
    m.evalBody scope (front ++ first :: others ++ rest) = (do
      let _ ← m.evalBody scope front
      let before ← m.evalBody scope (first :: others)
      Run.lastOf before (m.eval scope) rest) := by
  rw [evalBody, Run.lastOf_append, Run.lastOf_append, bind_assoc]
  rfl

/-- Forms in three groups, of which the middle one is a sequence. -/
theorem evalBody_sequence (m : Machine) (scope : ScopeId) (front inner rest : List Value) :
    (above hosts m).evalBody scope (front ++ Keyword.sequence.form inner :: rest) = (do
      let _ ← (above hosts m).evalBody scope front
      let before ← m.evalBody scope inner
      Run.lastOf before ((above hosts m).eval scope) rest) := by
  rw [evalBody, Run.lastOf_append]
  apply bind_congr
  intro before
  show ((above hosts m).eval scope (Keyword.sequence.form inner) >>= _) = _
  rw [eval_above_form]
  rfl

theorem follows_sequence_expansion (h : (above hosts m).Follows .unlimited m')
    (h' : m.Follows .unlimited m') (scope : ScopeId) (front : List Value) (first : Value)
    (others rest : List Value) :
    Run.Follows .unlimited id
      ((above hosts (above hosts m)).eval scope
        (Keyword.sequence.form (front ++ Keyword.sequence.form (first :: others) :: rest)))
      ((above hosts m').eval scope (Keyword.sequence.form (front ++ first :: others ++ rest))) := by
  rw [eval_above_form, eval_above_form]
  show Run.Follows .unlimited id ((above hosts m).evalBody scope _) (m'.evalBody scope _)
  rw [evalBody_sequence, evalBody_splice]
  apply Run.follows_bind (h.lastOfSame scope .undefined front)
  intro _
  apply Run.follows_bind (h'.lastOfSame scope .undefined (first :: others))
  exact fun before => h.lastOfSame scope before rest

theorem follows_sequence_of_expansion (h : m.Follows .unlimited (above hosts m'))
    (h' : m.Follows .unlimited m') (scope : ScopeId) (front : List Value) (first : Value)
    (others rest : List Value) :
    Run.Follows .unlimited id
      ((above hosts m).eval scope (Keyword.sequence.form (front ++ first :: others ++ rest)))
      ((above hosts (above hosts m')).eval scope
        (Keyword.sequence.form (front ++ Keyword.sequence.form (first :: others) :: rest))) := by
  rw [eval_above_form, eval_above_form]
  show Run.Follows .unlimited id (m.evalBody scope _) ((above hosts m').evalBody scope _)
  rw [evalBody_sequence, evalBody_splice]
  apply Run.follows_bind (h.lastOfSame scope .undefined front)
  intro _
  apply Run.follows_bind (h'.lastOfSame scope .undefined (first :: others))
  exact fun before => h.lastOfSame scope before rest

/-- A form and what it stands for settle in the same way. -/
theorem settles_iff_of_expands [hosts.Uniform] {a b : Value} (h : Expands a b) (scope : ScopeId)
    (s : Store) (result : EStateM.Result Stop Store Value) :
    Settles hosts scope a s result ↔ Settles hosts scope b s result := by
  have hwider : ∀ rounds depth more,
      (ofDepth hosts rounds depth).Follows .unlimited (ofDepth hosts rounds (depth + more)) :=
    fun rounds depth more => follows_wider hosts (Nat.le_refl rounds) (Nat.le_add_right depth more)
  cases h with
  | definition name parameters body =>
    have hexpansion := fun rounds depth =>
      eval_definition_expansion hosts (ofDepth hosts rounds depth) scope name parameters body
    constructor <;> intro h <;> apply h.follow <;> intro rounds depth
    · exact ⟨rounds, depth + 4, (hexpansion rounds (depth + 2)).symm ▸ follows_same _⟩
    · exact ⟨rounds, depth + 2, (hexpansion rounds (depth + 1)).symm ▸ follows_same _⟩
  | guard test body =>
    constructor <;> intro h <;> apply h.follow <;> intro rounds depth
    · have habove : (ofDepth hosts rounds (depth + 2)).Follows .unlimited
          (above hosts (ofDepth hosts rounds (depth + 2))) := hwider rounds (depth + 2) 1
      exact ⟨rounds, depth + 4, follows_guard_expansion habove (hwider rounds (depth + 2) 0)
        scope test body⟩
    · exact ⟨rounds, depth + 3, follows_guard_of_expansion (m := ofDepth hosts rounds (depth + 1))
        (hwider rounds (depth + 2) 0) (hwider rounds (depth + 1) 1) scope test body⟩
  | loop test body =>
    constructor <;> intro h <;> apply h.follow <;> intro rounds depth
    · exact ⟨rounds, depth + 5, follows_loop_expansion rounds (depth + 2) scope test body⟩
    · exact ⟨rounds + 1, depth + 3, follows_loop_of_expansion rounds depth scope test body⟩
  | sequence front first others rest =>
    constructor <;> intro h <;> apply h.follow <;> intro rounds depth
    · exact ⟨rounds, depth + 3, follows_sequence_expansion (m := ofDepth hosts rounds (depth + 1))
        (hwider rounds (depth + 2) 0) (hwider rounds (depth + 1) 1) scope front first others rest⟩
    · have habove : (ofDepth hosts rounds (depth + 2)).Follows .unlimited
          (above hosts (ofDepth hosts rounds (depth + 2))) := hwider rounds (depth + 2) 1
      exact ⟨rounds, depth + 4, follows_sequence_of_expansion habove
        (hwider rounds (depth + 2) 0) scope front first others rest⟩

/-! ## Bindings -/

/-- A new scope with bindings for a body, which has a machine of its own. -/
def bodyWith (m m' : Machine) (scope : ScopeId) (bindings : List (String × Value))
    (body : List Value) : Run Value := do
  let inner ← Run.newScope (.empty (some scope))
  SpecialForm.bindInTurn m inner (bindingList bindings)
  m'.evalBody inner body

theorem eval_bindingForm (m : Machine) (scope : ScopeId) (bindings : List (String × Value))
    (body : List Value) :
    (above hosts m).eval scope (bindingForm bindings body) = bodyWith m m scope bindings body :=
  eval_above_form m scope .binding _

/-- Definitions in front of a body bind their names as a binding list does. -/
theorem evalBody_definitions (m : Machine) (scope : ScopeId) (bindings : List (String × Value))
    (body : List Value) :
    (above hosts m).evalBody scope (definitionList bindings ++ body) = (do
      SpecialForm.bindInTurn m scope (bindingList bindings)
      (above hosts m).evalBody scope body) := by
  induction bindings with
  | nil => rfl
  | cons binding bindings ih =>
    obtain ⟨name, expression⟩ := binding
    show (do
        let before ←
          (above hosts m).eval scope (Keyword.definition.form [.identifier name, expression])
        Run.lastOf before ((above hosts m).eval scope) (definitionList bindings ++ body)) =
      (do
        (do
          let value ← m.eval scope expression
          Run.bind scope name value
          SpecialForm.bindInTurn m scope (bindingList bindings))
        (above hosts m).evalBody scope body)
    rw [eval_above_form]
    show (do
        let before ← (do
          let value ← m.eval scope expression
          Run.bind scope name value
          pure Value.undefined)
        Run.lastOf before ((above hosts m).eval scope) (definitionList bindings ++ body)) = _
    simp only [bind_assoc, pure_bind]
    apply bind_congr
    intro value
    apply bind_congr
    exact fun _ => ih

/-- The invoked procedure does what the bindings do, once it has an identity. -/
theorem eval_bindingExpansion (m : Machine) (scope : ScopeId) (bindings : List (String × Value))
    (body : List Value) :
    (above hosts (above hosts (above hosts m))).eval scope (bindingExpansion bindings body) = (do
      let _ ← Run.reserve 1
      bodyWith m (above hosts m) scope bindings body) := by
  have hcall : ∀ identity,
      (above hosts (above hosts m)).invoke
          (.procedure identity [] (definitionList bindings ++ body) scope) [] =
        bodyWith m (above hosts m) scope bindings body := by
    intro identity
    apply bind_congr
    exact fun inner => evalBody_definitions m inner bindings body
  show (above hosts (above hosts m)).application scope (Keyword.abstraction.form _) [] = _
  unfold application
  rw [eval_above_form]
  show (do
    let identity ← Run.reserve 1
    (above hosts (above hosts m)).invoke (.procedure identity [] _ scope) []) = _
  apply bind_congr
  exact hcall

theorem Follows.bodyWithSame {n n' : Machine} (h : m.Follows .unlimited n)
    (h' : m'.Follows .unlimited n') (scope : ScopeId) (bindings : List (String × Value))
    (body : List Value) :
    Run.Follows .unlimited id (bodyWith m m' scope bindings body)
      (bodyWith n n' scope bindings body) := by
  apply Run.follows_bind (f := id) (Run.follows_limits_iff.2 fun _ => .inr rfl)
  intro inner
  apply Run.follows_bind (h.bindInTurnSame inner (bindingList bindings))
  exact fun _ => h'.lastOfSame inner .undefined body

/-- Bindings settle as the procedure does that stands for them, in a store in which
the identity of the procedure is set aside. -/
theorem settles_bindingExpansion_iff [hosts.Uniform] {scope : ScopeId}
    {bindings : List (String × Value)} {body : List Value} {s : Store}
    {result : EStateM.Result Stop Store Value} :
    Settles hosts scope (bindingExpansion bindings body) s result ↔
      Settles hosts scope (bindingForm bindings body) (s.reserve 1).2 result := by
  have hexpansion : ∀ rounds depth,
      (ofDepth hosts rounds (depth + 3)).eval scope (bindingExpansion bindings body) s =
        bodyWith (ofDepth hosts rounds depth) (ofDepth hosts rounds (depth + 1)) scope bindings body
          (s.reserve 1).2 :=
    fun rounds depth =>
      congrFun (eval_bindingExpansion (ofDepth hosts rounds depth) scope bindings body) s
  have hform : ∀ rounds depth,
      (ofDepth hosts rounds (depth + 1)).eval scope (bindingForm bindings body) =
        bodyWith (ofDepth hosts rounds depth) (ofDepth hosts rounds depth) scope bindings body :=
    fun rounds depth => eval_bindingForm (ofDepth hosts rounds depth) scope bindings body
  have hwider : ∀ rounds depth,
      (ofDepth hosts rounds depth).Follows .unlimited (ofDepth hosts rounds (depth + 1)) :=
    fun rounds depth => follows_wider hosts (Nat.le_refl rounds) (Nat.le_succ depth)
  have hself : ∀ rounds depth,
      (ofDepth hosts rounds depth).Follows .unlimited (ofDepth hosts rounds depth) :=
    fun rounds depth => follows_wider hosts (Nat.le_refl rounds) (Nat.le_refl depth)
  constructor <;> intro h <;> apply h.transfer <;> intro rounds depth
  · refine ⟨rounds, depth + 2, ?_⟩
    rw [hexpansion, hform]
    exact Run.follows_limits_iff.1 ((hwider rounds depth).bodyWithSame (hself rounds (depth + 1))
      scope bindings body) _
  · refine ⟨rounds, depth + 5, ?_⟩
    rw [hexpansion, hform]
    exact Run.follows_limits_iff.1 ((hself rounds (depth + 2)).bodyWithSame
      (hwider rounds (depth + 2)) scope bindings body) _

/-- Two expressions settle in the same way but for identities. -/
structure SettleAlike (hosts : Hosts) (new : Identity → Identity) (scope : ScopeId) (a b : Value)
    (s : Store) : Prop where
  there : ∀ result, Settles hosts scope a s result →
    ∃ result', Settles hosts scope b s result' ∧ Run.RenamedResult new result result'
  back : ∀ result', Settles hosts scope b s result' →
    ∃ result, Settles hosts scope a s result ∧ Run.RenamedResult new result result'

/-- Bindings and the procedure that stands for them settle in the same way, but the
objects that are made on the way have later identities. -/
theorem settleAlike_bindingExpansion [hosts.Uniform] {scope : ScopeId}
    {bindings : List (String × Value)} {body : List Value} {s : Store} (hfresh : s.Fresh)
    (hform : s.Knows (bindingForm bindings body)) :
    SettleAlike hosts (leaveOut s.nextIdentity 1) scope (bindingForm bindings body)
      (bindingExpansion bindings body) s := by
  have hreserve := fun rounds depth => eval_reserve hosts rounds depth scope hfresh hform 1
  refine ⟨?_, ?_⟩
  · rintro result ⟨⟨rounds, depth, rfl⟩, hfinished⟩
    exact ⟨_, settles_bindingExpansion_iff.2
      ⟨⟨rounds, depth, rfl⟩, (hreserve rounds depth).finished_iff.2 hfinished⟩,
      hreserve rounds depth⟩
  · rintro result' h
    obtain ⟨⟨rounds, depth, rfl⟩, hfinished⟩ := settles_bindingExpansion_iff.1 h
    exact ⟨_, ⟨⟨rounds, depth, rfl⟩, (hreserve rounds depth).finished_iff.1 hfinished⟩,
      hreserve rounds depth⟩

/-- The evaluation of an expression that holds no identity that is still to be given leaves
a fresh store behind, and so is what it hands out. -/
theorem Settles.fresh [hosts.Uniform] {scope : ScopeId} {expression : Value} {s : Store}
    {result : EStateM.Result Stop Store Value} (h : Settles hosts scope expression s result)
    (hfresh : s.Fresh) (hexpression : s.Knows expression) :
    (Run.left result).Fresh ∧ ∀ v, Run.handed? result = some v → (Run.left result).Knows v := by
  obtain ⟨⟨rounds, depth, rfl⟩, -⟩ := h
  exact fresh_eval rounds depth scope hfresh hexpression

end Machine

/-- In a session, bindings that were read agree with what they stand for. -/
theorem Session.bindings_agree [hosts.Uniform] (rounds depth : Nat) (prelude : Prelude)
    (registrations : List Registration) (history : List Request) (scope : ScopeId)
    (bindings : List (String × Value)) (body : List Value)
    (htree : (bindingForm bindings body).IsSyntax) :
    let s := (after hosts history (start hosts rounds depth prelude registrations)).store
    Machine.SettleAlike hosts (leaveOut s.nextIdentity 1) scope (bindingForm bindings body)
      (bindingExpansion bindings body) s :=
  Machine.settleAlike_bindingExpansion
    (fresh_after rounds depth prelude registrations history).store (Store.knows_of_isSyntax htree)

/-! ## All of them -/

namespace Machine

/-- Every derived form settles as the form does that it stands for, in every scope
and every store, with the same value or error and the same store.  Bindings do so
but for the identities of new objects, in a store and of a form that hold no
identity that is still to be given.  Evaluation keeps to this, with all that it hands out,
and it is so for bindings that are read in a session, whatever was asked of it before. -/
theorem expansions_agree (hosts : Hosts) [hosts.Uniform] (scope : ScopeId) (s : Store) :
    (∀ a b, Expands a b → ∀ result,
        Settles hosts scope a s result ↔ Settles hosts scope b s result) ∧
      (s.Fresh → ∀ bindings body, s.Knows (bindingForm bindings body) →
        SettleAlike hosts (leaveOut s.nextIdentity 1) scope (bindingForm bindings body)
          (bindingExpansion bindings body) s) ∧
      (s.Fresh → ∀ expression, s.Knows expression → ∀ result,
        Settles hosts scope expression s result →
        (Run.left result).Fresh ∧ ∀ v, Run.handed? result = some v → (Run.left result).Knows v) ∧
      ∀ rounds depth prelude registrations history bindings body,
        (bindingForm bindings body).IsSyntax →
        let used := (Session.after hosts history
          (Session.start hosts rounds depth prelude registrations)).store
        SettleAlike hosts (leaveOut used.nextIdentity 1) scope (bindingForm bindings body)
          (bindingExpansion bindings body) used := by
  refine ⟨fun _ _ h result => settles_iff_of_expands h scope s result, ?_, ?_, ?_⟩
  · exact fun hfresh _ _ hform => settleAlike_bindingExpansion hfresh hform
  · exact fun hfresh _ hexpression _ h => h.fresh hfresh hexpression
  · intro rounds depth prelude registrations history bindings body htree
    exact Session.bindings_agree rounds depth prelude registrations history scope bindings body
      htree

/-- A procedure that is bound to a name has the first identity, and in the expansion the
second one.  The names of the special forms are bound, to no effect. -/
theorem expansions_agree_procedure :
    let s := (Store.empty.addScope ⟨none, [("let", .nil), ("lambda", .nil)]⟩).2
    let form := bindingForm [("f", Keyword.abstraction.form [.form []])] [.identifier "f"]
    let expansion := bindingExpansion [("f", Keyword.abstraction.form [.form []])] [.identifier "f"]
    usualHosts.Uniform ∧ s.Fresh ∧ s.Knows form ∧
      (∃ after, Settles usualHosts 0 form s (.ok (.procedure 0 [] [] 1) after)) ∧
      ∃ after, Settles usualHosts 0 expansion s (.ok (.procedure 1 [] [] 1) after) := by
  intro s form expansion
  have hfresh : s.Fresh := by
    rintro (_ | place) v ⟨scope, hscope, name, hbinding⟩ <;> cases hscope
    have hbinding : (name, v) ∈ [("let", Value.nil), ("lambda", .nil)] := hbinding
    simp only [List.mem_cons, List.not_mem_nil, or_false, Prod.mk.injEq] at hbinding
    rcases hbinding with ⟨-, rfl⟩ | ⟨-, rfl⟩ <;> exact fun _ hi => by cases hi
  have hknows : s.Knows form := fun i hi => by cases hi
  have hform : ∃ after, Settles usualHosts 0 form s (.ok (.procedure 0 [] [] 1) after) :=
    ⟨_, ⟨1, 3, rfl⟩, fun _ _ _ h => by cases h⟩
  obtain ⟨after, hsettles⟩ := hform
  obtain ⟨result', hsettles', hrenamed⟩ :=
    ((expansions_agree usualHosts 0 s).2.1 hfresh _ _ hknows).there _ hsettles
  refine ⟨inferInstance, hfresh, hknows, ⟨after, hsettles⟩, ?_⟩
  cases hrenamed
  exact ⟨_, hsettles'⟩

end Machine

end TinyLisp
