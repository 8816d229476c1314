import TinyLisp.Proofs.Evaluation.Confinement
import TinyLisp.Proofs.Hosts

/-!
# Isolation

An evaluation in a scope neither changes nor gives away anything that cannot be
got at from that scope.

There are two groups.

* `Store.Isolates`: what an evaluation may do to a store.
* `Machine.eval_isolates`: the evaluation of source does no more, however it
  ends.  It is the confinement of the evaluation to what its scope reaches.
-/

namespace TinyLisp

/-- What an evaluation in the scope `env` may do to the store `s`: it leaves the
store `after` behind and hands out a value, as its result or with its error. -/
structure Store.Isolates (s : Store) (env : ScopeId) (after : Store) (handed : Option Value) :
    Prop where
  /-- Scopes that could not be got at are as they were. -/
  untouched : ∀ i, i < s.scopes.size → ¬ s.Reaches env i → after.scopes[i]? = s.scopes[i]?
  /-- What is handed out leads to no other scopes but those that could be got at
  and those that are new. -/
  handed : ∀ v, handed = some v → ∀ k ∈ v.mentions after.root, ∀ i, after.Reaches k i →
    s.Reaches env i ∨ s.scopes.size ≤ i ∧ i < after.scopes.size
  /-- No other scopes can be got at afterwards. -/
  reached : ∀ i, after.Reaches env i →
    s.Reaches env i ∨ s.scopes.size ≤ i ∧ i < after.scopes.size

namespace Confinement

/-- The scopes that one scope reaches lead to no others. -/
def reachable (s : Store) (env : ScopeId) : Confinement where
  start := s
  usable := s.Reaches env
  closed _ _ hi hlink := hi.tail hlink

/-- What may be used leads only to what may be used. -/
theorem Allows.of_reaches {c : Confinement} {s : Store} {i j : ScopeId} (hkeeps : c.Keeps s)
    (h : c.Allows s i) (hreaches : s.Reaches i j) : c.Allows s j :=
  hreaches.pass h hkeeps.closed

end Confinement

/-- Whatever is evaluated in a scope, and whether the evaluation ends well or
not, nothing is changed or given away that the scope does not reach. -/
theorem Machine.eval_isolates (hosts : Hosts) [hosts.Coupled] (rounds depth : Nat)
    {expression : Value} (hexpression : expression.IsSyntax) (env : ScopeId) (s : Store) :
    s.Isolates env (Run.left ((ofDepth hosts rounds depth).eval env expression s))
      (Run.handed? ((ofDepth hosts rounds depth).eval env expression s)) := by
  let c := Confinement.reachable s env
  have henv : c.Allows s env := .inl .refl
  have hsource : c.AllowsValue s expression :=
    Confinement.allowsValue_of_mentions_eq_nil (Value.mentions_of_isSyntax hexpression)
  have hagree := (agree_ofDepth (D := c.discipline) hosts rounds depth).eval henv hsource
  have hends := (hagree s c.keeps_start (Store.grows_refl s)).2
  generalize (ofDepth hosts rounds depth).eval env expression s = result at hends
  have hkeeps : c.Keeps (Run.left result) := hends.left.1
  refine ⟨hkeeps.untouched, ?_, ?_⟩
  · intro v hv k hk i hreaches
    rw [hkeeps.root] at hk
    exact (hends.handed hv k hk).of_reaches hkeeps hreaches
  · intro i hreaches
    exact (henv.later hkeeps.grows).of_reaches hkeeps hreaches

/-- A procedure from the scope 1 is called from the scope 0 and hands out a new
one, which holds the scope 2 of the call. -/
theorem Machine.eval_isolates_call :
    usualHosts.Coupled ∧ (Value.form [.identifier "f"]).IsSyntax ∧
      Store.Isolates
        ⟨#[⟨none, [("f", .procedure 0 [] [.form [.identifier "lambda", .form []]] 1)]⟩, ⟨none, []⟩],
          0, 1, "", 0⟩
        0
        (Run.left ((ofDepth usualHosts 1 9).eval 0 (.form [.identifier "f"])
          ⟨#[⟨none, [("f", .procedure 0 [] [.form [.identifier "lambda", .form []]] 1)]⟩,
            ⟨none, []⟩], 0, 1, "", 0⟩))
        (some (.procedure 1 [] [] 2)) := by
  have hsource : (Value.form [.identifier "f"]).IsSyntax := by
    apply Value.IsSyntax.form
    intro item hitem
    rcases List.mem_singleton.1 hitem with rfl
    exact .identifier "f"
  exact ⟨inferInstance, hsource, eval_isolates usualHosts 1 9 hsource 0 _⟩

end TinyLisp
