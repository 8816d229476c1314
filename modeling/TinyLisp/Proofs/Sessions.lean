import TinyLisp.Proofs.Evaluation.Confinement
import TinyLisp.Proofs.Evaluation.Watching
import TinyLisp.Proofs.Hosts
import TinyLisp.Session

/-!
# The scopes of a session

However a session is used, the scopes of its store stay in order: each lies
inside an earlier one, no value holds a scope that does not exist, and every
scope since the last reset lies inside the root of the session.

There are six groups.

* `Store.Orderly`: scopes that are in order.
* `Store.Sound` and `Store.Rooted`: the invariant, which says of single scopes
  what is needed for this.  `Store.Rooted.orderly` follows the scopes outwards.
* A store that is rooted stays so in all that is confined to its session, and
  a new root makes any sound store rooted.
* Filling a root: the standard natives, the registered functions and the
  prelude, under a discipline.
* `Session.Request`: what an embedding program asks of a session.
* `Session.inOrder_throughout`: the scopes are in order after any requests, and
  at every step of the evaluations in between.
-/

namespace TinyLisp

variable {hosts : Hosts}

/-! ## Scopes in order -/

namespace Building

variable {s : Store}

/-- A global name is bound where the chain of scopes ends. -/
theorem setGlobal_symbol (m : Machine) (scope : ScopeId) (name : String) (value : Value) :
    setGlobal m scope (.symbol name) value s =
      .ok value (s.bind (s.rootOf scope) name value) := rfl

theorem setGlobal_string (m : Machine) (scope : ScopeId) (name : String) (value : Value) :
    setGlobal m scope (.string name) value s =
      .ok value (s.bind (s.rootOf scope) name value) := rfl

end Building

namespace Store

/-- The scopes since the last reset: the root and those that came after it. -/
def Owns (s : Store) (i : ScopeId) : Prop :=
  s.root ≤ i ∧ i < s.scopes.size

/-- All scopes that a value holds are scopes since the last reset. -/
def OwnsValue (s : Store) (v : Value) : Prop :=
  ∀ k ∈ v.mentions s.root, s.Owns k

/-- Scopes that are in order. -/
structure Orderly (s : Store) : Prop where
  /-- The scope around a scope is an earlier one. -/
  earlier : ∀ i j, s.outer? i = some j → j < i
  /-- No value that is bound anywhere holds a scope that does not exist. -/
  held : ∀ i v, s.Contains i v → ∀ k ∈ v.mentions s.root, k < s.scopes.size
  /-- A value that is bound since the last reset holds no older scope. -/
  owned : ∀ i v, s.root ≤ i → s.Contains i v → s.OwnsValue v
  /-- Every search for a name comes to an end: its path is the whole way out. -/
  complete : ∀ i, i < s.scopes.size → s.Chain i (s.path i)
  /-- From every scope since the last reset the way out ends at the root. -/
  toRoot : ∀ i, s.Owns i → (s.path i).getLast? = some s.root
  /-- The root is where a setter of global names writes. -/
  global : ∀ i, s.Owns i → s.rootOf i = s.root
  /-- A setter of global names binds the name in the root and gives the value back. -/
  setsGlobal : ∀ i, s.Owns i → ∀ m name value,
    Building.setGlobal m i (.symbol name) value s = .ok value (s.bind s.root name value) ∧
      Building.setGlobal m i (.string name) value s = .ok value (s.bind s.root name value)

/-! ## The invariant -/

/-- What holds of the scopes of any session, also before its first root. -/
structure Sound (s : Store) : Prop where
  earlier : ∀ i j, s.outer? i = some j → j < i
  held : ∀ i v, s.Contains i v → ∀ k ∈ v.mentions s.root, k < s.scopes.size

/-- What holds of the scopes of a session that has a root. -/
structure Rooted (s : Store) : Prop extends s.Sound where
  root_lt : s.root < s.scopes.size
  /-- The root lies inside no scope. -/
  root_outer : s.outer? s.root = none
  /-- A scope after the root lies inside the root or one after it. -/
  inside : ∀ i, s.root < i → i < s.scopes.size → ∃ j, s.outer? i = some j ∧ s.root ≤ j
  owned : ∀ i v, s.root ≤ i → s.Contains i v → s.OwnsValue v

variable {s : Store}

namespace Rooted

theorem owns_root (h : s.Rooted) : s.Owns s.root :=
  ⟨Nat.le_refl _, h.root_lt⟩

theorem owns_outer (h : s.Rooted) {i j : ScopeId} (houter : s.outer? i = some j) (hi : s.Owns i) :
    s.Owns j := by
  obtain ⟨hroot, hlt⟩ := hi
  rcases Nat.lt_or_eq_of_le hroot with hroot | rfl
  · obtain ⟨j', houter', hj⟩ := h.inside i hroot hlt
    rw [houter] at houter'
    cases houter'
    exact ⟨hj, Nat.lt_trans (h.earlier i j houter) hlt⟩
  · rw [h.root_outer] at houter
    cases houter

/-- The root is the only scope of the session that lies inside no other. -/
theorem eq_root (h : s.Rooted) {i : ScopeId} (houter : s.outer? i = none) (hi : s.Owns i) :
    i = s.root := by
  obtain ⟨hroot, hlt⟩ := hi
  rcases Nat.lt_or_eq_of_le hroot with hroot | rfl
  · obtain ⟨j, houter', -⟩ := h.inside i hroot hlt
    rw [houter] at houter'
    cases houter'
  · rfl

theorem orderly (h : s.Rooted) : s.Orderly := by
  have hcomplete : ∀ i, i < s.scopes.size → s.Chain i (s.path i) :=
    fun i hi => chain_path h.earlier hi
  have hlast : ∀ i, s.Owns i → (s.path i).getLast? = some s.root := by
    intro i hi
    exact (hcomplete i hi.2).getLast?_eq hi (fun i j houter hi => h.owns_outer houter hi)
      fun i _ houter hi => h.eq_root houter hi
  have hglobal : ∀ i, s.Owns i → s.rootOf i = s.root := by
    intro i hi
    unfold rootOf
    rw [List.getLastD_eq_getLast?, hlast i hi]
    rfl
  refine ⟨h.earlier, h.held, h.owned, hcomplete, hlast, hglobal, ?_⟩
  intro i hi m name value
  rw [Building.setGlobal_symbol, Building.setGlobal_string, hglobal i hi]
  exact ⟨rfl, rfl⟩

/-- The scopes of a session lead to no others. -/
theorem owns_of_link (h : s.Rooted) {i j : ScopeId} (hi : s.Owns i) (hlink : s.Link i j) :
    s.Owns j := by
  cases hlink with
  | outer houter => exact h.owns_outer houter hi
  | value hv hheld => exact h.owned i _ hi.1 hv j hheld

/-- Evaluation in a session is confined to the scopes since the last reset. -/
def confinement (h : s.Rooted) : Confinement where
  start := s
  usable := s.Owns
  closed _ _ hi hlink := h.owns_of_link hi hlink

variable {t : Store}

theorem owns_iff_allows (h : s.Rooted) (hkeeps : h.confinement.Keeps t) (i : ScopeId) :
    t.Owns i ↔ h.confinement.Allows t i := by
  have hroot : t.root = s.root := hkeeps.root
  have hsize : s.scopes.size ≤ t.scopes.size := hkeeps.grows.size
  unfold Owns
  rw [hroot]
  constructor
  · intro hi
    rcases Nat.lt_or_ge i s.scopes.size with hlt | hge
    · exact .inl ⟨hi.1, hlt⟩
    · exact .inr ⟨hge, hi.2⟩
  · intro hi
    rcases hi with hi | ⟨hge, hlt⟩
    · exact ⟨hi.1, Nat.lt_of_lt_of_le hi.2 hsize⟩
    · exact ⟨Nat.le_trans (Nat.le_of_lt h.root_lt) hge, hlt⟩

theorem ownsValue_of_allowsValue (h : s.Rooted) (hkeeps : h.confinement.Keeps t) {v : Value}
    (hv : h.confinement.AllowsValue t v) : t.OwnsValue v := by
  intro k hk
  rw [hkeeps.root] at hk
  exact (h.owns_iff_allows hkeeps k).2 (hv k hk)

/-- What is confined to a rooted session leaves it rooted.  Scopes from before
the root are as they were; the scopes of the session lead to one another. -/
theorem of_keeps (h : s.Rooted) (hkeeps : h.confinement.Keeps t) : t.Rooted := by
  have hroot : t.root = s.root := hkeeps.root
  have hsize : s.scopes.size ≤ t.scopes.size := hkeeps.grows.size
  have hold : ∀ i, i < s.scopes.size → t.outer? i = s.outer? i := hkeeps.grows.outer
  have howned : ∀ i v, t.root ≤ i → t.Contains i v → t.OwnsValue v := by
    intro i v hi hv k hk
    have hlt : i < t.scopes.size := hv.lt
    have hallowed := (h.owns_iff_allows hkeeps i).1 ⟨hi, hlt⟩
    exact (h.owns_iff_allows hkeeps k).2 (hkeeps.closed i k hallowed (.value hv hk))
  refine ⟨⟨?_, ?_⟩, ?_, ?_, ?_, howned⟩
  · -- each scope lies inside an earlier one
    intro i j houter
    rcases Nat.lt_or_ge i s.scopes.size with hlt | hge
    · rw [hold i hlt] at houter
      exact h.earlier i j houter
    · obtain ⟨j', houter', hj⟩ := hkeeps.inside i hge (lt_of_outer? houter)
      rw [houter] at houter'
      cases houter'
      rcases hj with hj | hj
      · exact Nat.lt_of_lt_of_le hj.2 hge
      · exact hj.2
  · -- no value holds a scope that does not exist
    intro i v hv k hk
    rcases Nat.lt_or_ge i t.root with hlt | hge
    · have hold : s.Contains i v := by
        have hnot : ¬ s.Owns i := fun hi => Nat.not_lt_of_le hi.1 (hroot ▸ hlt)
        have hi : i < s.scopes.size := Nat.lt_trans (hroot ▸ hlt) h.root_lt
        obtain ⟨scope, hscope, hbinding⟩ := hv
        rw [hkeeps.untouched i hi hnot] at hscope
        exact ⟨scope, hscope, hbinding⟩
      rw [hroot] at hk
      exact Nat.lt_of_lt_of_le (h.held i v hold k hk) hsize
    · exact (howned i v hge hv k hk).2
  · rw [hroot]
    exact Nat.lt_of_lt_of_le h.root_lt hsize
  · rw [hroot, hold s.root h.root_lt]
    exact h.root_outer
  · intro i hi hlt
    rw [hroot] at hi ⊢
    rcases Nat.lt_or_ge i s.scopes.size with hlt' | hge
    · rw [hold i hlt']
      exact h.inside i hi hlt'
    · obtain ⟨j, houter, hj⟩ := hkeeps.inside i hge hlt
      refine ⟨j, houter, ?_⟩
      rcases hj with hj | hj
      · exact hj.1
      · exact Nat.le_trans (Nat.le_of_lt h.root_lt) hj.1

end Rooted

/-! ## New roots -/

/-- A store with a new root. -/
def withRoot (s : Store) : Store :=
  { (s.addScope (.empty none)).2 with root := s.scopes.size }

theorem sound_empty : Store.empty.Sound := by
  refine ⟨?_, ?_⟩
  · intro i j houter
    cases lt_of_outer? houter
  · intro i v hv
    cases hv.lt

/-- Identities that are set aside make no difference to the scopes. -/
theorem Sound.reserve (h : s.Sound) (count : Nat) : (s.reserve count).2.Sound where
  earlier := h.earlier
  held := h.held

theorem Rooted.reserve (h : s.Rooted) (count : Nat) : (s.reserve count).2.Rooted where
  toSound := h.toSound.reserve count
  root_lt := h.root_lt
  root_outer := h.root_outer
  inside := h.inside
  owned := h.owned

theorem grows_withRoot : s.Grows s.withRoot :=
  (grows_addScope (.empty none)).trans (grows_of_same rfl)

theorem outer?_withRoot_of_ne {i : ScopeId} (h : i ≠ s.scopes.size) :
    s.withRoot.outer? i = s.outer? i :=
  outer?_addScope_of_ne (.empty none) h

theorem outer?_withRoot_root : s.withRoot.outer? s.scopes.size = none :=
  outer?_addScope_self (.empty none)

/-- A new root binds nothing, and other scopes bind what they bound. -/
theorem contains_of_contains_withRoot {i : ScopeId} {v : Value} (h : s.withRoot.Contains i v) :
    i < s.scopes.size ∧ s.Contains i v := by
  obtain ⟨scope, hscope, name, hbinding⟩ := h
  by_cases hi : i = s.scopes.size
  · subst hi
    have hscope : (s.addScope (.empty none)).2.scopes[s.scopes.size]? = some scope := hscope
    rw [getElem?_addScope_self] at hscope
    cases hscope
    cases hbinding
  · have hscope : (s.addScope (.empty none)).2.scopes[i]? = some scope := hscope
    rw [getElem?_addScope_of_ne _ hi] at hscope
    have hcontains : s.Contains i v := ⟨scope, hscope, name, hbinding⟩
    exact ⟨hcontains.lt, hcontains⟩

theorem Sound.rooted_withRoot (h : s.Sound) : s.withRoot.Rooted := by
  have hsize : s.withRoot.scopes.size = s.scopes.size + 1 := size_addScope (.empty none)
  refine ⟨⟨?_, ?_⟩, ?_, outer?_withRoot_root, ?_, ?_⟩
  · intro i j houter
    by_cases hi : i = s.scopes.size
    · subst hi
      rw [outer?_withRoot_root] at houter
      cases houter
    · rw [outer?_withRoot_of_ne hi] at houter
      exact h.earlier i j houter
  · intro i v hv k hk
    rw [hsize]
    obtain ⟨-, hv⟩ := contains_of_contains_withRoot hv
    rcases Value.mem_mentions_of_root s.root v hk with hk | rfl
    · exact Nat.lt_succ_of_lt (h.held i v hv k hk)
    · exact Nat.lt_succ_self _
  · rw [hsize]
    exact Nat.lt_succ_self _
  · intro i hi hlt
    rw [hsize] at hlt
    exact absurd hi (Nat.not_lt_of_le (Nat.le_of_lt_succ hlt))
  · intro i v hi hv
    exact absurd (contains_of_contains_withRoot hv).1 (Nat.not_lt_of_le hi)

end Store

/-! ## Filling a root -/

section

variable {D : Discipline} {s : Store} {m m' : Machine} {root : ScopeId}

open Run

theorem agree_bindNative {scope : ScopeId} {bound name : String} {operation : Operation}
    (hscope : D.scope s scope) (hnative : ∀ identity, D.value s (.native identity name operation)) :
    Run.Agree D s anything (bindNative scope bound name operation)
      (bindNative scope bound name operation) := by
  apply agree_bind agree_reserve
  intro t identity _ hlater _
  exact agree_bindName bound (D.scope_later hlater hscope) (D.value_later hlater (hnative identity))

/-- The natives that a root binds may all be used. -/
structure Discipline.AllowsNatives (D : Discipline) (s : Store) (root : ScopeId) : Prop where
  scope : D.scope s root
  primitive : ∀ identity name primitive, D.value s (.native identity name (.primitive primitive))
  host : ∀ identity name function, D.value s (.native identity name (.host function))
  setGlobal : ∀ identity name, D.value s (.native identity name (.setGlobal root))

theorem Discipline.AllowsNatives.later {t : Store} (h : D.AllowsNatives s root)
    (hlater : D.later s t) : D.AllowsNatives t root where
  scope := D.scope_later hlater h.scope
  primitive identity name primitive := D.value_later hlater (h.primitive identity name primitive)
  host identity name function := D.value_later hlater (h.host identity name function)
  setGlobal identity name := D.value_later hlater (h.setGlobal identity name)

theorem agree_bindStandard (h : D.AllowsNatives s root) :
    Run.Agree D s anything (bindStandard root) (bindStandard root) := by
  apply agree_bind
    (agree_forM fun _ _ => agree_bindNative h.scope fun identity => h.primitive identity _ _)
  intro t _ _ hlater _
  apply agree_bind (agree_bindName "pi" (h.later hlater).scope (D.value_plain rfl))
  intro u _ _ hlater' _
  have hlater := D.later_trans hlater hlater'
  apply agree_bind
    (agree_bindNative (h.later hlater).scope fun identity =>
      (h.later hlater).primitive identity _ _)
  intro w _ _ hlater' _
  have hlater := D.later_trans hlater hlater'
  exact agree_bindNative (h.later hlater).scope fun identity =>
    (h.later hlater).setGlobal identity _

theorem agree_bindIn (h : D.AllowsNatives s root) (entry : Registered) :
    Run.Agree D s anything (entry.bindIn root) (entry.bindIn root) := by
  unfold Registered.bindIn
  split
  · exact agree_bindName _ h.scope (h.host _ _ _)
  · exact agree_bindNative h.scope fun identity => h.host identity _ _

/-- A source that is evaluated for its effects. -/
theorem agree_evalEffects (h : m.Agree D m') (hroot : D.scope s root) (source : String)
    {run run' : Run Unit} (hrun : ∀ t, D.later s t → Run.Agree D t anything run run') :
    Run.Agree D s anything (do let _ ← m.evalText root source; run)
      (do let _ ← m'.evalText root source; run') :=
  agree_bind (h.evalText source hroot) fun t _ _ hlater _ => hrun t hlater

theorem agree_loadFiles (h : m.Agree D m') (hroot : D.scope s root)
    (contents : List (Option String)) :
    Run.Agree D s anything (loadFiles m root contents) (loadFiles m' root contents) := by
  induction contents generalizing s with
  | nil => exact agree_pure fun _ _ _ => trivial
  | cons content contents ih =>
    cases content with
    | none => exact agree_pure fun _ _ _ => trivial
    | some source =>
      exact agree_evalEffects h hroot source fun t hlater => ih (D.scope_later hlater hroot)

theorem agree_load (h : m.Agree D m') (hroot : D.scope s root) (prelude : Prelude) :
    Run.Agree D s anything (prelude.load m root) (prelude.load m' root) := by
  cases prelude with
  | none => exact agree_pure fun _ _ _ => trivial
  | source text =>
    exact agree_evalEffects h hroot text fun _ _ => agree_pure fun _ _ _ => trivial
  | files contents => exact agree_loadFiles h hroot contents

/-- What a reset puts into the new root. -/
def fillRoot (m : Machine) (prelude : Prelude) (registrations : List Registered)
    (root : ScopeId) : Run Unit := do
  bindStandard root
  registrations.forM (·.bindIn root)
  prelude.load m root

theorem agree_fillRoot (h : m.Agree D m') (hnatives : D.AllowsNatives s root) (prelude : Prelude)
    (registrations : List Registered) :
    Run.Agree D s anything (fillRoot m prelude registrations root)
      (fillRoot m' prelude registrations root) := by
  apply agree_bind (agree_bindStandard hnatives)
  intro t _ _ hlater _
  have hnatives := hnatives.later hlater
  apply agree_bind (agree_forM fun entry _ => agree_bindIn hnatives entry)
  intro u _ _ hlater' _
  exact agree_load h (hnatives.later hlater').scope prelude

theorem newRoot_eq (s : Store) : newRoot s = .ok s.scopes.size s.withRoot := rfl

/-- A reset fills a new root. -/
theorem freshRoot_eq (m : Machine) (prelude : Prelude) (registrations : List Registered)
    (s : Store) :
    Session.freshRoot m prelude registrations s =
      fillRoot m prelude registrations s.scopes.size s.withRoot := by
  have hfill : Session.freshRoot m prelude registrations =
      newRoot >>= fillRoot m prelude registrations := by
    unfold Session.freshRoot installStandard fillRoot
    simp only [bind_assoc, pure_bind]
  rw [hfill, Run.bind_of_ok (newRoot_eq s)]

end

/-! ## Requests -/

/-- An error of the first expression is an error of the source. -/
theorem Machine.evalText_of_first {m : Machine} {scope : ScopeId} {source : String}
    {expression : Value} {rest : List Value} {stop : Stop} {s t : Store}
    (hread : (readAll m.depth (tokenize source)).1 = expression :: rest)
    (heval : m.eval scope expression s = .error stop t) :
    m.evalText scope source s = .error stop t := by
  unfold evalText evalTokens
  generalize readAll m.depth (tokenize source) = found at hread
  obtain ⟨expressions, ending⟩ := found
  obtain rfl : expressions = expression :: rest := hread
  apply Run.bind_of_error
  exact Run.bind_of_error heval

namespace Store.Rooted

variable {start s t : Store}

/-- The natives of a root hold no other scope than the root. -/
theorem allowsNatives (h : s.Rooted) : h.confinement.discipline.AllowsNatives s s.root where
  scope := .inl h.owns_root
  primitive _ _ _ := Confinement.allowsValue_of_mentions_eq_nil rfl
  host _ _ _ := by
    intro i hi
    obtain ⟨-, rfl⟩ := Value.mem_mentions_host.1 hi
    exact .inl h.owns_root
  setGlobal _ _ := by
    intro i hi
    rcases List.mem_singleton.1 hi with rfl
    exact .inl h.owns_root

end Store.Rooted

namespace Session

/-- Approves of an evaluation as long as the scopes are in order, no scope since
`start` is lost or moved, and all that is used or handed out exists and belongs
to the session. -/
def watch (start : Store) : Watch where
  evaluates s scope expression :=
    s.Orderly ∧ start.Grows s ∧ s.Owns scope ∧ s.OwnsValue expression
  invokes s callee arguments :=
    s.Orderly ∧ start.Grows s ∧ s.OwnsValue callee ∧ ∀ a ∈ arguments, s.OwnsValue a
  ends s t handed := t.Orderly ∧ s.Grows t ∧ ∀ v, handed = some v → t.OwnsValue v

theorem content_watch {start s : Store} (h : s.Rooted) (hstart : start.Grows s) :
    (watch start).Content h.confinement.discipline where
  evaluates hkeeps hscope hexpression :=
    ⟨(h.of_keeps hkeeps).orderly, hstart.trans hkeeps.grows, (h.owns_iff_allows hkeeps _).2 hscope,
      h.ownsValue_of_allowsValue hkeeps hexpression⟩
  invokes hkeeps hcallee harguments :=
    ⟨(h.of_keeps hkeeps).orderly, hstart.trans hkeeps.grows,
      h.ownsValue_of_allowsValue hkeeps hcallee,
      fun a ha => h.ownsValue_of_allowsValue hkeeps (harguments a ha)⟩
  ends _ hkeeps hgrows hhanded :=
    ⟨(h.of_keeps hkeeps).orderly, hgrows,
      fun v hv => h.ownsValue_of_allowsValue hkeeps (hhanded v hv)⟩

/-- What an embedding program asks of a session, with its limits for the rounds
of loops and for the depth of the recursion. -/
inductive Request where
  | reset (rounds depth : Nat)
  | eval (rounds depth : Nat) (source : String)
  | register (registration : Registration)

/-- What a request does, with machines of one kind. -/
def Request.perform (machine : Nat → Nat → Machine) : Request → Interaction Unit
  | reset rounds depth => Session.reset (machine rounds depth)
  | eval rounds depth source => do let _ ← Session.eval (machine rounds depth) source
  | register registration => Session.register registration

/-- The session that an interaction leaves behind, whether it ends well or not. -/
def left {α : Type} : EStateM.Result Stop Session α → Session
  | .ok _ session => session
  | .error _ session => session

/-- The session after some requests, each of which may fail. -/
def after (hosts : Hosts) (requests : List Request) (session : Session) : Session :=
  requests.foldl
    (fun session request => left (request.perform (Machine.ofDepth hosts) session)) session

/-- A request passes a moment if it makes a difference to disapprove of that moment alone. -/
def Request.Passes (hosts : Hosts) (request : Request) (session : Session)
    (moment : Watch.Moment) : Prop :=
  ∃ alarm, request.perform (Machine.watched hosts (.allBut moment) alarm) session ≠
    request.perform (Machine.ofDepth hosts) session

/-- The outcome of a run on the store of a session. -/
def put {α : Type} (session : Session) :
    EStateM.Result Stop Store α → EStateM.Result Stop Session Unit
  | .ok _ store => .ok () { session with store := store }
  | .error stop store => .error stop { session with store := store }

@[simp] theorem store_left_put {α : Type} (session : Session)
    (result : EStateM.Result Stop Store α) :
    (left (session.put result)).store = Run.left result := by
  cases result <;> rfl

@[simp] theorem prelude_left_put {α : Type} (session : Session)
    (result : EStateM.Result Stop Store α) :
    (left (session.put result)).prelude = session.prelude := by
  cases result <;> rfl

@[simp] theorem registrations_left_put {α : Type} (session : Session)
    (result : EStateM.Result Stop Store α) :
    (left (session.put result)).registrations = session.registrations := by
  cases result <;> rfl

theorem onStore_eq_put (run : Run Unit) (session : Session) :
    Interaction.onStore run session = session.put (run session.store) := by
  unfold Interaction.onStore put
  cases run session.store <;> rfl

/-- A run that is made for its effects. -/
theorem onStore_bind_eq_put {α : Type} (run : Run α) (session : Session) :
    EStateM.bind (Interaction.onStore run) (fun _ => pure ()) session =
      session.put (run session.store) := by
  unfold EStateM.bind Interaction.onStore put
  cases run session.store <;> rfl

/-- A run that depends on the session. -/
theorem get_onStore_eq_put (run : Session → Run Unit) (session : Session) :
    (do let session ← get; Interaction.onStore (run session) : Interaction Unit) session =
      session.put (run session session.store) :=
  onStore_eq_put (run session) session

/-- Evaluating a source runs it in the root. -/
theorem eval_eq (m : Machine) (source : String) (session : Session) :
    eval m source session = match m.evalText session.store.root source session.store with
      | .ok value store => .ok value { session with store := store }
      | .error stop store => .error stop { session with store := store } := by
  have hrun : (do m.evalText (← get).root source : Run Value) session.store =
      m.evalText session.store.root source session.store := rfl
  unfold eval Interaction.onRoot Interaction.onStore
  rw [hrun]
  cases m.evalText session.store.root source session.store <;> rfl

theorem perform_eval (machine : Nat → Nat → Machine) (rounds depth : Nat) (source : String)
    (session : Session) :
    (Request.eval rounds depth source).perform machine session =
      session.put ((machine rounds depth).evalText session.store.root source session.store) :=
  onStore_bind_eq_put _ session

theorem perform_reset (machine : Nat → Nat → Machine) (rounds depth : Nat) (session : Session) :
    (Request.reset rounds depth).perform machine session =
      session.put (fillRoot (machine rounds depth) session.prelude session.registrations
        session.store.scopes.size session.store.withRoot) := by
  rw [← freshRoot_eq]
  exact get_onStore_eq_put
    (fun session => freshRoot (machine rounds depth) session.prelude session.registrations) session

theorem perform_register (machine : Nat → Nat → Machine) (registration : Registration)
    (session : Session) :
    (Request.register registration).perform machine session =
      let entry : Registered := ⟨registration, session.store.nextIdentity⟩
      put { session with registrations := entry.add session.registrations }
        (entry.bindIn session.store.root (session.store.reserve 1).2) :=
  onStore_eq_put (fun store => Registered.bindIn store.root _ store)
    { session with registrations := _, store := (session.store.reserve 1).2 }

/-- What holds where a request ends, and on the way there. -/
structure Step (hosts : Hosts) (request : Request) (session : Session) : Prop where
  rooted : (left (request.perform (Machine.ofDepth hosts) session)).store.Rooted
  grows : session.store.Grows (left (request.perform (Machine.ofDepth hosts) session)).store
  watched : ∀ alarm, request.perform (Machine.watched hosts (watch session.store) alarm) session =
    request.perform (Machine.ofDepth hosts) session
  approved : ∀ moment, request.Passes hosts session moment →
    (watch session.store).Approves moment

/-- A run that is confined to a session with a root. -/
theorem step_of_agree [hosts.Coupled] {α : Type} {P : Store → α → Prop} {request : Request}
    {session target : Session} {s : Store} (h : s.Rooted) (hgrows : session.store.Grows s)
    (run : Machine → Run α) (rounds depth : Nat)
    (hperform : ∀ machine,
      request.perform machine session = target.put (run (machine rounds depth) s))
    (hagree : ∀ m m', m.Agree h.confinement.discipline m' →
      Run.Agree h.confinement.discipline s P (run m) (run m')) :
    Step hosts request session := by
  have hstart : h.confinement.Keeps s := Confinement.keeps_start
  have hends := (hagree _ _ (Machine.agree_ofDepth hosts rounds depth) s hstart
    (Store.grows_refl s)).2
  have hkeeps : h.confinement.Keeps (Run.left (run (Machine.ofDepth hosts rounds depth) s)) :=
    hends.left.1
  have hsame : ∀ w : Watch, w.Content h.confinement.discipline → ∀ alarm,
      request.perform (Machine.watched hosts w alarm) session =
        request.perform (Machine.ofDepth hosts) session := by
    intro w hcontent alarm
    have hwatched := Machine.agree_watched hosts hcontent alarm rounds depth
    rw [hperform, hperform, (hagree _ _ hwatched s hstart (Store.grows_refl s)).1]
  have hcontent := content_watch h hgrows
  refine ⟨?_, ?_, hsame _ hcontent, ?_⟩
  · rw [hperform, store_left_put]
    exact h.of_keeps hkeeps
  · rw [hperform, store_left_put]
    exact hgrows.trans hkeeps.grows
  · -- a moment that is disapproved of is never come to
    intro moment hpasses
    obtain ⟨alarm, hne⟩ := hpasses
    apply Classical.byContradiction
    intro hnot
    exact hne (hsame _ (hcontent.allBut hnot) alarm)

/-- A reset gives any session a root. -/
theorem step_reset (hosts : Hosts) [hosts.Coupled] {session : Session} (rounds depth : Nat)
    (h : session.store.Sound) : Step hosts (.reset rounds depth) session := by
  have hrooted := h.rooted_withRoot
  apply step_of_agree hrooted Store.grows_withRoot
    (fun m => fillRoot m session.prelude session.registrations session.store.scopes.size)
    rounds depth fun machine => perform_reset machine rounds depth session
  intro m m' hagree
  exact agree_fillRoot hagree hrooted.allowsNatives session.prelude session.registrations

/-- A session with a root keeps one. -/
theorem step (hosts : Hosts) [hosts.Coupled] {session : Session} (request : Request)
    (h : session.store.Rooted) : Step hosts request session := by
  cases request with
  | reset rounds depth => exact step_reset hosts rounds depth h.toSound
  | eval rounds depth source =>
    apply step_of_agree h (Store.grows_refl session.store)
      (fun m => m.evalText session.store.root source) rounds depth
      fun machine => perform_eval machine rounds depth source session
    intro m m' hagree
    exact hagree.evalText source (.inl h.owns_root)
  | register registration =>
    have hrooted := h.reserve 1
    apply step_of_agree hrooted (Store.grows_of_same rfl)
      (fun _ => Registered.bindIn session.store.root ⟨registration, session.store.nextIdentity⟩)
      0 0 fun machine => perform_register machine registration session
    intro m m' _
    exact agree_bindIn hrooted.allowsNatives _

/-- Evaluating a source passes the beginning of its first expression. -/
theorem passes_first (rounds depth : Nat) {source : String} {session : Session}
    {expression : Value} {rest : List Value}
    (h : (readAll depth (tokenize source)).1 = expression :: rest) :
    (Request.eval rounds depth source).Passes hosts session
      (.evaluation session.store session.store.root expression) := by
  generalize hmoment : Watch.Moment.evaluation session.store session.store.root expression = moment
  have hstops : ∀ alarm, (Request.eval rounds depth source).perform
      (Machine.watched hosts (.allBut moment) alarm) session = .error alarm session := by
    intro alarm
    have heval : (Machine.watched hosts (.allBut moment) alarm rounds depth).eval
        session.store.root expression session.store = .error alarm session.store :=
      Machine.eval_watched_of_not alarm rounds depth fun hne => hne hmoment
    rw [perform_eval, Machine.evalText_of_first (by rwa [Machine.depth_watched]) heval]
    rfl
  -- of two alarms at least one is not what the unwatched evaluation ends with
  by_cases hdeep : (Request.eval rounds depth source).perform (Machine.ofDepth hosts) session =
      .error .tooDeep session
  · refine ⟨.tooLong, ?_⟩
    rw [hstops, hdeep]
    simp
  · refine ⟨.tooDeep, ?_⟩
    rw [hstops]
    exact Ne.symm hdeep

/-! ## Whole sessions -/

theorem rooted_after [hosts.Coupled] {session : Session} (requests : List Request)
    (h : session.store.Rooted) :
    (after hosts requests session).store.Rooted := by
  induction requests generalizing session with
  | nil => exact h
  | cons request requests ih => exact ih (step hosts request h).rooted

theorem grows_after [hosts.Coupled] {session : Session} (requests : List Request)
    (h : session.store.Rooted) :
    session.store.Grows (after hosts requests session).store := by
  induction requests generalizing session with
  | nil => exact Store.grows_refl _
  | cons request requests ih =>
    have hstep := step hosts request h
    exact hstep.grows.trans (ih hstep.rooted)

/-- A session that has had its first reset. -/
def start (hosts : Hosts) (rounds depth : Nat) (prelude : Prelude)
    (registrations : List Registration) : Session :=
  left ((Request.reset rounds depth).perform (Machine.ofDepth hosts) (new prelude registrations))

/-- A session in order, now and in whatever is asked of it next. -/
structure InOrder (hosts : Hosts) (session : Session) : Prop where
  orderly : session.store.Orderly
  /-- No scope is ever lost or gets another scope around it. -/
  kept : ∀ requests, session.store.Grows (after hosts requests session).store
  /-- At every evaluation and every invocation of the next request the scopes are
  in order, so a watch makes no difference, whatever it would raise as an alarm. -/
  watched : ∀ (request : Request) alarm,
    request.perform (Machine.watched hosts (watch session.store) alarm) session =
      request.perform (Machine.ofDepth hosts) session
  /-- The watch approves of every moment that the next request passes. -/
  approved : ∀ (request : Request) moment, request.Passes hosts session moment →
    (watch session.store).Approves moment

/-- A session is in order after any requests, each of which may fail, and so is
every step of the first reset. -/
theorem inOrder_throughout [hosts.Coupled] (rounds depth : Nat) (prelude : Prelude)
    (registrations : List Registration) (history : List Request) :
    InOrder hosts (after hosts history (start hosts rounds depth prelude registrations)) ∧
      (∀ alarm,
        (Request.reset rounds depth).perform
            (Machine.watched hosts (watch (new prelude registrations).store) alarm)
            (new prelude registrations) =
          (Request.reset rounds depth).perform (Machine.ofDepth hosts)
            (new prelude registrations)) ∧
      ∀ moment, (Request.reset rounds depth).Passes hosts (new prelude registrations) moment →
        (watch (new prelude registrations).store).Approves moment := by
  have hfirst : Step hosts (.reset rounds depth) (new prelude registrations) :=
    step_reset hosts rounds depth (Store.sound_empty.reserve registrations.length)
  have hrooted : (after hosts history (start hosts rounds depth prelude
      registrations)).store.Rooted := rooted_after history hfirst.rooted
  refine ⟨⟨hrooted.orderly, ?_, ?_, ?_⟩, hfirst.watched, hfirst.approved⟩
  · intro requests
    exact grows_after requests hrooted
  · intro request
    exact (step hosts request hrooted).watched
  · intro request
    exact (step hosts request hrooted).approved

/-- After a definition and a second reset, the evaluation of a call in the root is approved of. -/
theorem inOrder_throughout_call :
    usualHosts.Coupled ∧
      let session := after usualHosts [.eval 9 9 "(define (f x) (set-global x x))", .reset 9 9]
        (start usualHosts 9 9 (.source "(define x (quote y))") [⟨"eval", .evalText, false⟩])
      session.store.Orderly ∧ (watch session.store).evaluates session.store session.store.root
        (.form [.identifier "f", .identifier "x"]) := by
  refine ⟨inferInstance, ?_⟩
  intro session
  have hsession : InOrder usualHosts session := (inOrder_throughout 9 9 _ _ _).1
  have hread : (readAll 9 (tokenize "(f x)")).1 = [.form [.identifier "f", .identifier "x"]] := rfl
  exact ⟨hsession.orderly, hsession.approved _ _ (passes_first 9 9 hread)⟩

end Session

end TinyLisp
