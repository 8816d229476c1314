import TinyLisp.Proofs.Identities
import TinyLisp.Proofs.Sessions

/-!
# Fresh identities in sessions

No identity that is still to be given is that of an object in the store of a session or
of a registered function, whatever was asked of the session before.

There are two groups.

* Filling a root, which follows itself under every simulation.
* `Session.Fresh` and `Session.fresh_after`: a step and a whole history.
-/

namespace TinyLisp

variable {S : Simulation} {hosts : Hosts} {m m' : Machine}

/-! ## Filling a root -/

/-- The registration with another identity. -/
def Registered.rename (new : Identity → Identity) (entry : Registered) : Registered :=
  { entry with identity := new entry.identity }

open Run

theorem follows_bindNative (scope : ScopeId) (bound name : String) (operation : Operation) :
    Run.Follows S id (bindNative scope bound name operation)
      (bindNative scope bound name operation) := by
  apply follows_bind follows_reserveOne
  exact fun identity => follows_bindName scope bound (.native identity name operation)

/-- A row of actions that are the same on both sides. -/
theorem follows_actions {α : Type} {items : List α} {action : α → Run PUnit}
    (h : ∀ item, Run.Follows S id (action item) (action item)) :
    Run.Follows S id (items.forM action) (items.forM action) := by
  have hrow : Run.Follows S id (items.forM action) ((items.map id).forM action) :=
    follows_forM fun item _ => h item
  rwa [List.map_id] at hrow

theorem follows_bindStandard (root : ScopeId) :
    Run.Follows S id (bindStandard root) (bindStandard root) := by
  apply follows_bind (follows_actions fun _ => follows_bindNative root _ _ _)
  intro _
  apply follows_bind (follows_bindName root "pi" (.float Arithmetic.pi))
  intro _
  apply follows_bind (follows_bindNative root "print" "print" (.primitive .print))
  exact fun _ => follows_bindNative root "set-global" "set-global" (.setGlobal root)

theorem follows_loadFiles (h : m.Follows S m') (root : ScopeId)
    (contents : List (Option String)) :
    Run.Follows S id (loadFiles m root contents) (loadFiles m' root contents) := by
  induction contents with
  | nil => exact follows_pure rfl
  | cons content contents ih =>
    cases content with
    | none => exact follows_pure rfl
    | some source => exact follows_bind (h.evalText root source) fun _ => ih

theorem follows_load (h : m.Follows S m') (root : ScopeId) (prelude : Prelude) :
    Run.Follows S id (prelude.load m root) (prelude.load m' root) := by
  cases prelude with
  | none => exact follows_pure rfl
  | source text => exact follows_bind (h.evalText root text) fun _ => follows_pure rfl
  | files contents => exact follows_loadFiles h root contents

theorem follows_bindIn (root : ScopeId) (entry : Registered) :
    Run.Follows S id (entry.bindIn root) ((entry.rename S.new).bindIn root) := by
  unfold Registered.bindIn Registered.rename
  by_cases hwrapped : entry.wrapped = true
  · rw [if_pos hwrapped, if_pos hwrapped]
    exact follows_bindName root entry.name (.native entry.identity _ _)
  · rw [if_neg hwrapped, if_neg hwrapped]
    exact follows_bindNative root entry.name _ _

theorem follows_fillRoot (h : m.Follows S m') (prelude : Prelude)
    (registrations : List Registered) (root : ScopeId) :
    Run.Follows S id (fillRoot m prelude registrations root)
      (fillRoot m' prelude (registrations.map (Registered.rename S.new)) root) := by
  apply follows_bind (follows_bindStandard root)
  intro _
  apply follows_bind (follows_forM fun entry _ => follows_bindIn root entry)
  exact fun _ => follows_load h root prelude

/-! ## The stores of a session -/

variable {s : Store}

/-- A run that has a copy under every bound, and is its own copy under those that it has not yet
come to, keeps a store fresh. -/
theorem Run.fresh_left {α : Type} {run : Run α} (copy : Nat → Run α)
    (h : ∀ bound, ∃ f, Run.Follows (.within bound) f run (copy bound))
    (hself : ∀ bound, s.nextIdentity ≤ bound → copy bound = run) (hfresh : s.Fresh) :
    (left (run s)).Fresh ∧ s.nextIdentity ≤ (left (run s)).nextIdentity := by
  have hlater : s.nextIdentity ≤ (left (run s)).nextIdentity :=
    nextIdentity_le (fun bound => (h bound).imp fun _ hfollows => ⟨copy bound, hfollows⟩) s
  obtain ⟨f, hfollows⟩ := h (left (run s)).nextIdentity
  rw [hself _ hlater] at hfollows
  exact ⟨left_fresh hfresh hlater hfollows, hlater⟩

theorem Store.Fresh.withRoot (h : s.Fresh) : s.withRoot.Fresh :=
  fun place v hv => h place v (contains_of_contains_withRoot hv).2

/-- What the reader makes holds no identities. -/
theorem Store.knows_of_isSyntax {v : Value} (h : v.IsSyntax) : s.Knows v := by
  intro i hi
  rw [Value.identities_of_isSyntax h] at hi
  cases hi

/-- A registration keeps an identity that has been given. -/
theorem Registered.rename_leaveOut {entry : Registered} {bound : Nat} (h : entry.identity < bound) :
    entry.rename (leaveOut bound 1) = entry := by
  unfold Registered.rename
  rw [leaveOut_of_lt h]

theorem mem_putNamed {α : Type} {name : α → String} {new item : α} {row : List α}
    (h : item ∈ putNamed name new row) : item = new ∨ item ∈ row := by
  induction row with
  | nil => exact .inl (List.mem_singleton.1 h)
  | cons old row ih =>
    unfold putNamed at h
    split at h
    · rcases List.mem_cons.1 h with h | h
      · exact .inl h
      · exact .inr (List.mem_cons_of_mem old h)
    · rcases List.mem_cons.1 h with rfl | h
      · exact .inr List.mem_cons_self
      · exact (ih h).imp_right (List.mem_cons_of_mem old)

namespace Session

/-- No identity that is still to be given is in use, neither in the store nor for a
registration. -/
structure Fresh (session : Session) : Prop where
  store : session.store.Fresh
  registrations : ∀ entry ∈ session.registrations, entry.identity < session.store.nextIdentity

/-- A run on the store keeps a session fresh. -/
theorem Fresh.put {α : Type} {session : Session} {run : Run α} {s : Store}
    (h : session.Fresh) (hs : session.store.nextIdentity ≤ s.nextIdentity)
    (hrun : (Run.left (run s)).Fresh ∧ s.nextIdentity ≤ (Run.left (run s)).nextIdentity) :
    (left (session.put (run s))).Fresh where
  store := by
    rw [store_left_put]
    exact hrun.1
  registrations entry hentry := by
    rw [registrations_left_put] at hentry
    rw [store_left_put]
    exact Nat.lt_of_lt_of_le (h.registrations entry hentry) (Nat.le_trans hs hrun.2)

theorem fresh_new (prelude : Prelude) (registrations : List Registration) :
    (new prelude registrations).Fresh where
  store place v hv := by cases hv.lt
  registrations entry hentry := by
    obtain ⟨⟨registration, identity⟩, hrow, rfl⟩ := List.mem_map.1 hentry
    have hidentity := (List.mem_zipIdx hrow).2.1
    simpa [new, Store.reserve, Store.empty] using hidentity

theorem fresh_reset [hosts.Uniform] {session : Session} (rounds depth : Nat) (h : session.Fresh) :
    (left ((Request.reset rounds depth).perform (Machine.ofDepth hosts) session)).Fresh := by
  have hmachine := fun bound =>
    Machine.follows_ofDepth hosts (S := .within bound) (.refl rounds) (.refl depth)
  have hfollows := fun bound => follows_fillRoot (hmachine bound) session.prelude
    session.registrations session.store.scopes.size
  have hsame : ∀ bound, session.store.nextIdentity ≤ bound →
      session.registrations.map (Registered.rename (leaveOut bound 1)) = session.registrations := by
    intro bound hbound
    calc session.registrations.map (Registered.rename (leaveOut bound 1))
      _ = session.registrations.map id := List.map_congr_left fun entry hentry =>
        Registered.rename_leaveOut (Nat.lt_of_lt_of_le (h.registrations entry hentry) hbound)
      _ = session.registrations := List.map_id _
  have hlater : session.store.nextIdentity ≤ session.store.withRoot.nextIdentity := Nat.le_refl _
  rw [perform_reset]
  apply h.put hlater
  refine Run.fresh_left _ (fun bound => ⟨id, hfollows bound⟩) ?_ h.store.withRoot
  intro bound hbound
  exact congrArg (fillRoot _ _ · _) (hsame bound hbound)

/-- The session with a registration that is not bound yet. -/
theorem Fresh.add {session : Session} (h : session.Fresh) (registration : Registration) :
    Fresh ⟨session.prelude,
      Registered.add ⟨registration, session.store.nextIdentity⟩ session.registrations,
      (session.store.reserve 1).2⟩ where
  store place v hv i hi := Nat.lt_succ_of_lt (h.store place v hv i hi)
  registrations entry hentry := by
    rcases mem_putNamed hentry with rfl | hentry
    · exact Nat.lt_succ_self _
    · exact Nat.lt_succ_of_lt (h.registrations entry hentry)

theorem fresh_register {machine : Nat → Nat → Machine} {session : Session}
    (registration : Registration) (h : session.Fresh) :
    (left ((Request.register registration).perform machine session)).Fresh := by
  rw [perform_register]
  have hadded := h.add registration
  apply hadded.put (Nat.le_refl _)
  refine Run.fresh_left _ (fun bound => ⟨id, follows_bindIn _ _⟩) ?_ hadded.store
  intro bound hbound
  exact congrArg _ (Registered.rename_leaveOut hbound)

theorem fresh_perform [hosts.Uniform] {session : Session} (request : Request) (h : session.Fresh) :
    (left (request.perform (Machine.ofDepth hosts) session)).Fresh := by
  cases request with
  | reset rounds depth => exact fresh_reset rounds depth h
  | eval rounds depth source =>
    have hmachine := fun bound =>
      Machine.follows_ofDepth hosts (S := .within bound) (.refl rounds) (.refl depth)
    have hfollows := fun bound => (hmachine bound).evalText session.store.root source
    rw [perform_eval]
    apply h.put (Nat.le_refl _)
    exact Run.fresh_left _ (fun bound => ⟨_, hfollows bound⟩) (fun _ _ => rfl) h.store
  | register registration => exact fresh_register registration h

/-- A session is fresh after any requests, each of which may fail. -/
theorem fresh_after [hosts.Uniform] (rounds depth : Nat) (prelude : Prelude)
    (registrations : List Registration) (history : List Request) :
    (after hosts history (start hosts rounds depth prelude registrations)).Fresh := by
  have hstart : (start hosts rounds depth prelude registrations).Fresh :=
    fresh_perform _ (fresh_new prelude registrations)
  generalize start hosts rounds depth prelude registrations = session at hstart
  induction history generalizing session with
  | nil => exact hstart
  | cons request history ih => exact ih _ (fresh_perform request hstart)

end Session

end TinyLisp
