import TinyLisp.Proofs.Hosts
import TinyLisp.Proofs.Simulation.Forms

/-!
# Limits

The limit of the recursion decides whether an evaluation overflows, and nothing
else.  An overflow is not caught on its way out, wherever it strikes.

There are four groups.

* `Simulation.limits`: evaluations with other limits, which are the same until
  the first one runs into a limit.
* `Machine.sameUnless_above`: one level of evaluation catches no overflow of the
  levels below it.
* `Interruption`: where overflows strike besides.  The natives, the printers and
  the comparisons take levels for themselves, so the limit may be reached sooner
  in one place than in another.
* `Machine.limit_decides_overflow`: evaluation under two limits.
-/

namespace TinyLisp

variable {hosts : Hosts}

/-! ## Wider limits -/

/-- Evaluations of the same things in the same stores, the second one with wider
limits. -/
def Simulation.limits (excuses : Stop → Prop) (h : ∀ fault, ¬ excuses (.fault fault)) :
    Simulation where
  excuses := excuses
  gone _ := False
  new := id
  store s t := t = s
  not_excuses_fault := h
  gone_later _ := id
  injective _ _ := id
  root := by rintro s t rfl; rfl
  lookup := by rintro s t scope name rfl; simp
  owner := by rintro s t scope name rfl; rfl
  rootOf := by rintro s t scope rfl; rfl
  bind := by rintro s t scope name v rfl; rw [Value.rename_id]
  addScope := by
    rintro s t scope rfl
    rw [Scope.rename_id]
    exact ⟨rfl, rfl⟩
  reserve := by
    rintro s t count rfl
    exact .inr ⟨fun _ _ => rfl, rfl⟩
  print := by rintro s t text rfl; rfl
  draw := by
    rintro s t rfl
    exact ⟨rfl, rfl⟩

/-- The second run ends in the same way as the first one, with the same result or
error and the same store, unless the first one ends for a reason that is excused. -/
def Run.SameUnless (excuses : Stop → Prop) {α : Type}
    (result result' : EStateM.Result Stop Store α) : Prop :=
  (∃ stop after, excuses stop ∧ result = .error stop after) ∨ result' = result

/-- Evaluation and invocation both do the same, unless the first one ends for a
reason that is excused. -/
structure Machine.SameUnless (excuses : Stop → Prop) (m m' : Machine) : Prop where
  eval : ∀ scope expression s,
    Run.SameUnless excuses (m.eval scope expression s) (m'.eval scope expression s)
  invoke : ∀ callee arguments s,
    Run.SameUnless excuses (m.invoke callee arguments s) (m'.invoke callee arguments s)

section

variable {excuses : Stop → Prop} {h : ∀ fault, ¬ excuses (.fault fault)} {m m' : Machine}

/-- Wider limits change nothing unless the run ends at one of them. -/
theorem Run.follows_limits_iff {α : Type} {run run' : Run α} :
    Run.Follows (.limits excuses h) id run run' ↔ ∀ s, SameUnless excuses (run s) (run' s) := by
  constructor
  · intro hfollows s
    have hends : Simulation.Ends (.limits excuses h) id (run s) (run' s) := hfollows.ends rfl
    generalize run s = result at hends ⊢
    generalize run' s = result' at hends ⊢
    cases hends with
    | gone h => exact h.elim
    | excused h => exact .inl ⟨_, _, h, rfl⟩
    | ok h =>
      subst h
      exact .inr rfl
    | @error stop _ _ h =>
      subst h
      exact .inr (congrArg (EStateM.Result.error · _) stop.rename_id)
  · intro hsame
    refine ⟨False.elim, ?_⟩
    rintro s t rfl
    rcases hsame t with ⟨stop, after, hexcused, heq⟩ | heq
    · rw [heq]
      exact .excused hexcused
    · rw [heq]
      cases run t with
      | ok a after => exact .ok rfl
      | error stop after =>
        have herror : Simulation.Ends (.limits excuses h) (id : α → α) (.error stop after)
            (.error (stop.rename id) after) := .error rfl
        rwa [Stop.rename_id] at herror

namespace Machine

theorem Follows.evalSame (hm : m.Follows (.limits excuses h) m') (scope : ScopeId)
    (expression : Value) :
    Run.Follows (.limits excuses h) id (m.eval scope expression) (m'.eval scope expression) := by
  have heval : Run.Follows _ (Value.rename id) _ (m'.eval scope (expression.rename id)) :=
    hm.eval scope expression
  rwa [Value.rename_id, Value.rename_id_eq] at heval

theorem Follows.invokeSame (hm : m.Follows (.limits excuses h) m') (callee : Value)
    (arguments : List Value) :
    Run.Follows (.limits excuses h) id (m.invoke callee arguments)
      (m'.invoke callee arguments) := by
  have hinvoke : Run.Follows _ (Value.rename id) _
      (m'.invoke (callee.rename id) (arguments.map (Value.rename id))) :=
    hm.invoke callee arguments
  rwa [Value.rename_id, Value.rename_id_eq, List.map_id] at hinvoke

theorem follows_limits_iff :
    m.Follows (.limits excuses h) m' ↔
      (Simulation.limits excuses h).Further .tooDeep m.depth m'.depth ∧
      (Simulation.limits excuses h).Further .tooLong m.rounds m'.rounds ∧
      m.SameUnless excuses m' := by
  constructor
  · intro hm
    refine ⟨hm.depth, hm.rounds, ?_, ?_⟩
    · exact fun scope expression => Run.follows_limits_iff.1 (hm.evalSame scope expression)
    · exact fun callee arguments => Run.follows_limits_iff.1 (hm.invokeSame callee arguments)
  · rintro ⟨hdepth, hrounds, heval, hinvoke⟩
    refine ⟨hdepth, hrounds, ?_, ?_⟩
    · intro scope expression
      show Run.Follows _ (Value.rename id) _ (m'.eval scope (expression.rename id))
      rw [Value.rename_id, Value.rename_id_eq]
      exact Run.follows_limits_iff.2 (heval scope expression)
    · intro callee arguments
      show Run.Follows _ (Value.rename id) _
        (m'.invoke (callee.rename id) (arguments.map (Value.rename id)))
      rw [Value.rename_id, Value.rename_id_eq, List.map_id]
      exact Run.follows_limits_iff.2 (hinvoke callee arguments)

end Machine

end

/-! ## Overflows -/

/-- The recursion went deeper than the limit. -/
def Stop.Overflow (stop : Stop) : Prop :=
  stop = .tooDeep

theorem Stop.not_overflow_fault (fault : Fault) : ¬ (Stop.fault fault).Overflow := by
  intro h
  cases h

namespace Machine

/-- One level catches no overflow of the levels below it. -/
theorem sameUnless_above [hosts.Uniform] {m m' : Machine} (hdepth : m.depth ≤ m'.depth)
    (hrounds : m.rounds = m'.rounds) (h : m.SameUnless Stop.Overflow m') :
    (above hosts m).SameUnless Stop.Overflow (above hosts m') := by
  have hfollows : m.Follows (.limits Stop.Overflow Stop.not_overflow_fault) m' :=
    follows_limits_iff.2 ⟨.of_le rfl hdepth, hrounds ▸ .refl _, h⟩
  exact (follows_limits_iff.1 (follows_above hfollows)).2.2

end Machine

/-! ## Interruptions -/

/-- A run that overflows at once where it is refused. -/
def Run.refusing (refused : Store → Bool) (run : Run Value) : Run Value := fun s =>
  if refused s then .error .tooDeep s else run s

theorem Run.sameUnless_refusing {refused refused' : Store → Bool} {run run' : Run Value} {s : Store}
    (hrefused : refused' s = true → refused s = true)
    (h : SameUnless Stop.Overflow (run s) (run' s)) :
    SameUnless Stop.Overflow (run.refusing refused s) (run'.refusing refused' s) := by
  unfold refusing
  by_cases hs : refused s = true
  · rw [if_pos hs]
    exact .inl ⟨_, s, rfl, rfl⟩
  · rw [if_neg hs, if_neg (hs ∘ hrefused)]
    exact h

/-- Where evaluations overflow besides, depending on how many levels are in use. -/
structure Interruption where
  /-- Whether the evaluation of an expression is refused. -/
  evaluation : Nat → ScopeId → Value → Store → Bool
  /-- Whether an invocation is refused. -/
  invocation : Nat → Value → List Value → Store → Bool
  /-- How many of the levels that are left are taken by the operations of a level
  themselves. -/
  taken : Nat → Nat

namespace Interruption

/-- No overflow but those of the levels. -/
def never : Interruption :=
  ⟨fun _ _ _ _ => false, fun _ _ _ _ => false, fun _ => 0⟩

/-- A machine with so many levels in use. -/
def on (p : Interruption) (used : Nat) (m : Machine) : Machine where
  depth := m.depth - p.taken used
  rounds := m.rounds
  eval scope expression := (m.eval scope expression).refusing (p.evaluation used scope expression)
  invoke callee arguments :=
    (m.invoke callee arguments).refusing (p.invocation used callee arguments)

/-- The first one strikes wherever the second one does. -/
structure Covers (p p' : Interruption) : Prop where
  evaluation : ∀ used scope expression s, p'.evaluation used scope expression s = true →
    p.evaluation used scope expression s = true
  invocation : ∀ used callee arguments s, p'.invocation used callee arguments s = true →
    p.invocation used callee arguments s = true
  taken : ∀ used, p'.taken used ≤ p.taken used

theorem covers_never (p : Interruption) : p.Covers never where
  evaluation _ _ _ _ h := by cases h
  invocation _ _ _ _ h := by cases h
  taken _ := Nat.zero_le _

theorem Covers.sameUnless {p p' : Interruption} (hcovers : p.Covers p') (used : Nat)
    {m m' : Machine} (h : m.SameUnless Stop.Overflow m') :
    (p.on used m).SameUnless Stop.Overflow (p'.on used m') where
  eval scope expression s :=
    Run.sameUnless_refusing (hcovers.evaluation used scope expression s) (h.eval scope expression s)
  invoke callee arguments s :=
    Run.sameUnless_refusing (hcovers.invocation used callee arguments s)
      (h.invoke callee arguments s)

end Interruption

namespace Machine

/-- The machine with `depth` levels, behind `used` others, that is interrupted. -/
def interrupted (hosts : Hosts) (p : Interruption) (rounds : Nat) : (depth used : Nat) → Machine
  | 0, _ => bottom rounds
  | depth + 1, used => p.on used (above hosts (interrupted hosts p rounds depth (used + 1)))

theorem interrupted_never (rounds depth used : Nat) :
    interrupted hosts .never rounds depth used = ofDepth hosts rounds depth := by
  induction depth generalizing used with
  | zero => rfl
  | succ depth ih =>
    rw [interrupted, ih]
    rfl

theorem rounds_interrupted (p : Interruption) (rounds depth used : Nat) :
    (interrupted hosts p rounds depth used).rounds = rounds := by
  induction depth generalizing used with
  | zero => rfl
  | succ depth ih => exact ih (used + 1)

theorem depth_interrupted_le {p p' : Interruption} (hcovers : p.Covers p') (rounds : Nat)
    {depth depth' : Nat} (hdepth : depth ≤ depth') (used : Nat) :
    (interrupted hosts p rounds depth used).depth ≤
      (interrupted hosts p' rounds depth' used).depth := by
  induction depth generalizing depth' used with
  | zero => exact Nat.zero_le _
  | succ depth ih =>
    obtain ⟨rest, rfl⟩ := Nat.exists_eq_add_of_le' (Nat.zero_lt_of_lt hdepth)
    have hrest := ih (Nat.le_of_succ_le_succ hdepth) (used + 1)
    have htaken := hcovers.taken used
    show (interrupted hosts p rounds depth (used + 1)).depth + 1 - p.taken used ≤
      (interrupted hosts p' rounds rest (used + 1)).depth + 1 - p'.taken used
    omega

/-- With overflows in fewer places and with more levels, an evaluation that does
not overflow does the same. -/
theorem sameUnless_interrupted [hosts.Uniform] {p p' : Interruption} (hcovers : p.Covers p')
    (rounds : Nat) {depth depth' : Nat} (hdepth : depth ≤ depth') (used : Nat) :
    (interrupted hosts p rounds depth used).SameUnless Stop.Overflow
      (interrupted hosts p' rounds depth' used) := by
  induction depth generalizing depth' used with
  | zero => exact ⟨fun _ _ s => .inl ⟨_, s, rfl, rfl⟩, fun _ _ s => .inl ⟨_, s, rfl, rfl⟩⟩
  | succ depth ih =>
    obtain ⟨rest, rfl⟩ := Nat.exists_eq_add_of_le' (Nat.zero_lt_of_lt hdepth)
    have hrest := Nat.le_of_succ_le_succ hdepth
    apply hcovers.sameUnless used
    apply sameUnless_above (depth_interrupted_le hcovers rounds hrest (used + 1))
    · rw [rounds_interrupted, rounds_interrupted]
    · exact ih hrest (used + 1)

/-! ## Two limits -/

theorem sameUnless_ofDepth (hosts : Hosts) [hosts.Uniform] (rounds : Nat) {limit limit' : Nat}
    (h : limit ≤ limit') :
    (ofDepth hosts rounds limit).SameUnless Stop.Overflow (ofDepth hosts rounds limit') := by
  have hsame : (interrupted hosts .never rounds limit 0).SameUnless Stop.Overflow
      (interrupted hosts .never rounds limit' 0) :=
    sameUnless_interrupted (Interruption.covers_never .never) rounds h 0
  rw [interrupted_never, interrupted_never] at hsame
  exact hsame

/-- An evaluation that does not overflow under one limit does the same under every
higher one, and so it does when overflows strike in other places besides. -/
theorem limit_decides_overflow (hosts : Hosts) [hosts.Uniform] (rounds : Nat)
    {limit limit' : Nat} (hlimit : limit ≤ limit') {p p' : Interruption} (hcovers : p.Covers p') :
    (ofDepth hosts rounds limit).SameUnless Stop.Overflow (ofDepth hosts rounds limit') ∧
      (interrupted hosts p rounds limit 0).SameUnless Stop.Overflow
        (interrupted hosts p' rounds limit' 0) :=
  ⟨sameUnless_ofDepth hosts rounds hlimit, sameUnless_interrupted hcovers rounds hlimit 0⟩

/-- Nothing can be invoked, and the operations of a level get no level for
themselves: a sequence is evaluated all the same, and as under a higher limit. -/
theorem limit_decides_overflow_sequence :
    let p : Interruption := ⟨fun _ _ _ _ => false, fun _ _ _ _ => true, id⟩
    usualHosts.Uniform ∧ 2 ≤ 9 ∧ p.Covers .never ∧
      (interrupted usualHosts p 1 2 0).SameUnless Stop.Overflow
        (interrupted usualHosts .never 1 9 0) ∧
      (interrupted usualHosts p 1 2 0).eval 0 (.form [.identifier "begin", .string "a"]) .empty =
        .ok (.string "a") .empty :=
  ⟨inferInstance, by decide, Interruption.covers_never _,
    (limit_decides_overflow usualHosts 1 (by decide) (Interruption.covers_never _)).2, rfl⟩

end Machine

end TinyLisp
