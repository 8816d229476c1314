import TinyLisp.Proofs.Evaluation.Discipline

/-!
# Watching

`Machine.watched` looks at every evaluation and every invocation, on every level,
where it begins and where it ends, and stops at the first one that it does not
approve of.  `Machine.agree_watched` says that it never does so under a discipline
that ensures its approval.

A watch may also disapprove of a single moment.  Whether that makes a difference tells
whether an evaluation passes the moment at all: `Watch.Content.allBut`.
-/

namespace TinyLisp

variable {D : Discipline} {s : Store} {hosts : Hosts} {m m' : Machine} {scope : ScopeId}

/-- What is approved of in an evaluation. -/
structure Watch where
  /-- The beginning of the evaluation of an expression. -/
  evaluates : Store → ScopeId → Value → Prop
  /-- The beginning of an invocation. -/
  invokes : Store → Value → List Value → Prop
  /-- The end of either, from one store in another, with a value that is given
  or that an error carries. -/
  ends : Store → Store → Option Value → Prop

namespace Watch

open Classical in
/-- A run that is looked at where it begins and where it ends. -/
noncomputable def guarded (w : Watch) (alarm : Stop) (begins : Store → Prop) (run : Run Value) :
    Run Value := fun before =>
  if begins before ∧ w.ends before (Run.left (run before)) (Run.handed? (run before)) then
    run before
  else .error alarm before

/-- A machine that is looked at. -/
noncomputable def watching (w : Watch) (alarm : Stop) (m : Machine) : Machine where
  depth := m.depth
  rounds := m.rounds
  eval scope expression :=
    w.guarded alarm (w.evaluates · scope expression) (m.eval scope expression)
  invoke callee arguments :=
    w.guarded alarm (w.invokes · callee arguments) (m.invoke callee arguments)

/-- Where an evaluation can be looked at. -/
inductive Moment where
  /-- The evaluation of an expression begins. -/
  | evaluation (s : Store) (scope : ScopeId) (expression : Value)
  /-- An invocation begins. -/
  | invocation (s : Store) (callee : Value) (arguments : List Value)
  /-- Either ends in the store `t` that has begun in the store `s`. -/
  | ending (s t : Store) (handed : Option Value)

/-- What the watch approves of. -/
def Approves (w : Watch) : Moment → Prop
  | .evaluation s scope expression => w.evaluates s scope expression
  | .invocation s callee arguments => w.invokes s callee arguments
  | .ending s t handed => w.ends s t handed

/-- A watch that approves of everything but one moment. -/
def allBut (moment : Moment) : Watch where
  evaluates s scope expression := .evaluation s scope expression ≠ moment
  invokes s callee arguments := .invocation s callee arguments ≠ moment
  ends s t handed := .ending s t handed ≠ moment

/-- A discipline ensures the approval of a watch. -/
structure Content (w : Watch) (D : Discipline) : Prop where
  evaluates : ∀ {s scope expression}, D.store s → D.scope s scope → D.value s expression →
    w.evaluates s scope expression
  invokes : ∀ {s callee arguments}, D.store s → D.value s callee → D.values s arguments →
    w.invokes s callee arguments
  ends : ∀ {s t handed}, D.store s → D.store t → D.later s t →
    (∀ v, handed = some v → D.value t v) → w.ends s t handed

variable {w : Watch} {alarm : Stop}

/-- Under a discipline nobody comes to a moment that a watch it satisfies disapproves of. -/
theorem Content.allBut (hcontent : w.Content D) {moment : Moment} (h : ¬ w.Approves moment) :
    (Watch.allBut moment).Content D where
  evaluates hstore hscope hexpression := by
    rintro rfl
    exact h (hcontent.evaluates hstore hscope hexpression)
  invokes hstore hcallee harguments := by
    rintro rfl
    exact h (hcontent.invokes hstore hcallee harguments)
  ends hstore hstore' hlater hhanded := by
    rintro rfl
    exact h (hcontent.ends hstore hstore' hlater hhanded)

theorem agree_guarded (hcontent : w.Content D) {begins : Store → Prop} {run run' : Run Value}
    (hbegins : ∀ t, D.store t → D.later s t → begins t) (h : Run.Agree D s D.value run run') :
    Run.Agree D s D.value run (w.guarded alarm begins run') := by
  intro t hstore hlater
  obtain ⟨heq, hends⟩ := h t hstore hlater
  refine ⟨?_, hends⟩
  have happroved : begins t ∧ w.ends t (Run.left (run' t)) (Run.handed? (run' t)) := by
    rw [← heq]
    obtain ⟨hafter, hlater'⟩ := hends.left
    exact ⟨hbegins t hstore hlater, hcontent.ends hstore hafter hlater' fun v hv => hends.handed hv⟩
  unfold guarded
  rw [if_pos happroved]
  exact heq

theorem agree_watching (hcontent : w.Content D) (h : m.Agree D m') :
    m.Agree D (w.watching alarm m') where
  depth := h.depth
  rounds := h.rounds
  eval hscope hexpression := by
    apply agree_guarded hcontent _ (h.eval hscope hexpression)
    intro t hstore hlater
    exact hcontent.evaluates hstore (D.scope_later hlater hscope) (D.value_later hlater hexpression)
  invoke hcallee harguments := by
    apply agree_guarded hcontent _ (h.invoke hcallee harguments)
    intro t hstore hlater
    exact hcontent.invokes hstore (D.value_later hlater hcallee)
      (Discipline.values_later hlater harguments)

end Watch

namespace Machine

/-- The machine with `depth` levels, looked at on every level. -/
noncomputable def watched (hosts : Hosts) (w : Watch) (alarm : Stop) (rounds : Nat) :
    Nat → Machine
  | 0 => w.watching alarm (bottom rounds)
  | depth + 1 => w.watching alarm (above hosts (watched hosts w alarm rounds depth))

theorem depth_watched (w : Watch) (alarm : Stop) (rounds depth : Nat) :
    (watched hosts w alarm rounds depth).depth = depth := by
  induction depth with
  | zero => rfl
  | succ depth ih => exact congrArg (· + 1) ih

/-- An evaluation stops at once where the watch disapproves of its beginning. -/
theorem eval_watched_of_not {w : Watch} (alarm : Stop) (rounds depth : Nat) {expression : Value}
    (h : ¬ w.evaluates s scope expression) :
    (watched hosts w alarm rounds depth).eval scope expression s = .error alarm s := by
  cases depth with
  | zero => exact if_neg fun happroved => h happroved.1
  | succ depth => exact if_neg fun happroved => h happroved.1

/-- Under a discipline that ensures its approval, a watch never stops a machine. -/
theorem agree_watched (hosts : Hosts) [hosts.Coupled] {w : Watch} (hcontent : w.Content D)
    (alarm : Stop) (rounds depth : Nat) :
    (ofDepth hosts rounds depth).Agree D (watched hosts w alarm rounds depth) := by
  induction depth with
  | zero => exact Watch.agree_watching hcontent (agree_bottom rounds)
  | succ depth ih => exact Watch.agree_watching hcontent (agree_above ih)

end Machine

end TinyLisp
