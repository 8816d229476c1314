import TinyLisp.Proofs.Sessions
import TinyLisp.Proofs.Shapes

/-!
# Resets

What a reset puts into the new root: the standard natives, over them the host
functions, of which the last one registered under a name counts, and over all of
them what the prelude binds.  Nothing is left of what was bound before.

There are six groups.

* Registrations: one for each name, the last one.
* `Table` and `Fills`: what the actions on a new root bind.
* The tables of the standard natives and of the registered functions.
* `Session.perform_reset_after`: a reset in terms of what the session was begun with.
* `Session.reset_restores`: looking names up after a reset, and natives that were made
  before they were registered.
* Preludes of definitions, which leave all other names alone.
-/

namespace TinyLisp

variable {hosts : Hosts}

/-! ## Registrations -/

section

variable {α : Type} {nameOf : α → String}

/-- The item with a name. -/
def findNamed (nameOf : α → String) (name : String) (row : List α) : Option α :=
  row.find? fun item => nameOf item = name

theorem findNamed_putNamed (new : α) (row : List α) (name : String) :
    findNamed nameOf name (putNamed nameOf new row) =
      if nameOf new = name then some new else findNamed nameOf name row := by
  unfold findNamed
  induction row with
  | nil => by_cases h : nameOf new = name <;> simp [putNamed, h]
  | cons old rest ih =>
    unfold putNamed
    by_cases hold : nameOf old = nameOf new
    · rw [if_pos hold]
      by_cases h : nameOf new = name <;> simp [h, hold]
    · rw [if_neg hold, List.find?_cons, List.find?_cons, ih]
      by_cases h : nameOf new = name
      · have hne : ¬ nameOf old = name := fun heq => hold (heq.trans h.symm)
        simp [h, hne]
      · simp [h]

theorem names_putNamed (new : α) (row : List α) :
    (putNamed nameOf new row).map nameOf =
      if nameOf new ∈ row.map nameOf then row.map nameOf
      else row.map nameOf ++ [nameOf new] := by
  induction row with
  | nil => rfl
  | cons old rest ih =>
    unfold putNamed
    by_cases hold : nameOf old = nameOf new
    · simp [hold]
    · have hne : ¬ nameOf new = nameOf old := fun h => hold h.symm
      rw [if_neg hold, List.map_cons, ih]
      by_cases h : nameOf new ∈ rest.map nameOf <;> simp [h, hne]

/-- Putting an item into a row leaves one for each name. -/
theorem nodup_putNamed (new : α) {row : List α} (h : (row.map nameOf).Nodup) :
    ((putNamed nameOf new row).map nameOf).Nodup := by
  rw [names_putNamed]
  split
  · exact h
  · rename_i hnew
    refine List.nodup_append.2 ⟨h, by simp, ?_⟩
    rintro name hname _ hlast rfl
    rcases List.mem_singleton.1 hlast with rfl
    exact hnew hname

/-- With one item for each name, an item is found under its name. -/
theorem findNamed_of_mem {item : α} {row : List α} (hnames : (row.map nameOf).Nodup)
    (h : item ∈ row) : findNamed nameOf (nameOf item) row = some item := by
  unfold findNamed
  induction row with
  | nil => cases h
  | cons first rest ih =>
    obtain ⟨hfirst, hrest⟩ := List.nodup_cons.1 hnames
    rcases List.mem_cons.1 h with rfl | h
    · simp
    · have hne : ¬ nameOf first = nameOf item := by
        intro heq
        exact hfirst (List.mem_map.2 ⟨item, h, heq.symm⟩)
      simpa [hne] using ih hrest h

/-- A map that keeps the names may be applied before or after. -/
theorem map_putNamed {β : Type} {nameOf' : β → String} (f : α → β)
    (hf : ∀ item, nameOf' (f item) = nameOf item) (new : α) (row : List α) :
    (putNamed nameOf new row).map f = putNamed nameOf' (f new) (row.map f) := by
  induction row with
  | nil => rfl
  | cons old rest ih =>
    simp only [putNamed, List.map_cons, hf]
    split
    · rfl
    · rw [List.map_cons, ih]

end

/-- What is registered under a name. -/
def Registration.find? : String → List Registration → Option Registration :=
  findNamed (·.name)

namespace Registered

/-- What is registered under a name, with its identity. -/
def find? : String → List Registered → Option Registered :=
  findNamed (·.name)

theorem map_find? (name : String) (entries : List Registered) :
    (find? name entries).map (·.toRegistration) =
      Registration.find? name (entries.map (·.toRegistration)) := by
  unfold find? Registration.find? findNamed
  rw [List.find?_map]
  rfl

theorem map_add (new : Registered) (entries : List Registered) :
    (new.add entries).map (·.toRegistration) =
      new.toRegistration.add (entries.map (·.toRegistration)) :=
  map_putNamed (·.toRegistration) (fun _ => rfl) new entries

theorem map_name (entries : List Registered) :
    entries.map (·.name) = (entries.map (·.toRegistration)).map (·.name) := by
  rw [List.map_map]
  rfl

theorem map_row (registrations : List Registration) :
    (row registrations).map (·.toRegistration) = registrations := by
  rw [row, List.map_map]
  exact List.zipIdx_map_fst 0 registrations

end Registered

/-! ## What is bound in a new root -/

/-- Values that names may be bound to. -/
abbrev Table := String → Value → Prop

/-- A table over another one, which counts for all names that the first one lacks. -/
def Table.over (new old : Table) : Table := fun name v =>
  new name v ∨ (∀ w, ¬ new name w) ∧ old name v

theorem Table.exists_over {new old : Table} {name : String} :
    (∃ v, new.over old name v) ↔ (∃ v, new name v) ∨ ∃ v, old name v := by
  constructor
  · rintro ⟨v, hv | ⟨-, hv⟩⟩
    · exact .inl ⟨v, hv⟩
    · exact .inr ⟨v, hv⟩
  · intro h
    by_cases hnew : ∃ v, new name v
    · obtain ⟨v, hv⟩ := hnew
      exact ⟨v, .inl hv⟩
    · obtain ⟨v, hv⟩ := h.resolve_left hnew
      exact ⟨v, .inr ⟨fun w hw => hnew ⟨w, hw⟩, hv⟩⟩

/-- From one store to the next, a scope gets the bindings of a table and keeps its
others. -/
structure Store.Fills (s : Store) (table : Table) (place : ScopeId) (t : Store) : Prop where
  size : t.scopes.size = s.scopes.size
  bound : ∀ name, (∃ v, table name v ∧ t.local? place name = some v) ∨
    (∀ v, ¬ table name v) ∧ t.local? place name = s.local? place name

/-- The run ends well and fills a scope. -/
def Run.Fills (table : Table) (place : ScopeId) (run : Run Unit) : Prop :=
  ∀ s : Store, place < s.scopes.size → ∃ t, run s = .ok () t ∧ s.Fills table place t

namespace Run

variable {table new old : Table} {place : ScopeId} {run run' : Run Unit}

theorem Fills.mono (h : Run.Fills old place run) (hvalues : ∀ name v, old name v → new name v)
    (hnames : ∀ name v, new name v → ∃ w, old name w) : Run.Fills new place run := by
  intro s hplace
  obtain ⟨t, hrun, hsize, hbound⟩ := h s hplace
  refine ⟨t, hrun, hsize, fun name => ?_⟩
  rcases hbound name with ⟨v, hv, hlocal⟩ | ⟨hnone, hlocal⟩
  · exact .inl ⟨v, hvalues name v hv, hlocal⟩
  · refine .inr ⟨fun v hv => ?_, hlocal⟩
    obtain ⟨w, hw⟩ := hnames name v hv
    exact hnone w hw

/-- What is bound later counts. -/
theorem Fills.bind (h : Run.Fills old place run) (h' : Run.Fills new place run') :
    Run.Fills (new.over old) place (do run; run') := by
  intro s hplace
  obtain ⟨t, hrun, hsize, hbound⟩ := h s hplace
  obtain ⟨u, hrun', hsize', hbound'⟩ := h' t (by rw [hsize]; exact hplace)
  refine ⟨u, (bind_of_ok hrun).trans hrun', hsize'.trans hsize, fun name => ?_⟩
  rcases hbound' name with ⟨v, hv, hlocal'⟩ | ⟨hnone', hlocal'⟩
  · exact .inl ⟨v, .inl hv, hlocal'⟩
  · rcases hbound name with ⟨v, hv, hlocal⟩ | ⟨hnone, hlocal⟩
    · exact .inl ⟨v, .inr ⟨hnone', hv⟩, hlocal'.trans hlocal⟩
    · refine .inr ⟨fun v hv => ?_, hlocal'.trans hlocal⟩
      rcases hv with hv | ⟨-, hv⟩
      · exact hnone' v hv
      · exact hnone v hv

theorem fills_forM {α : Type} (items : List α) {action : α → Run Unit} {entry : α → Table}
    (h : ∀ item, Run.Fills (entry item) place (action item)) :
    Run.Fills (fun name v => ∃ item ∈ items, entry item name v) place (items.forM action) := by
  induction items with
  | nil =>
    intro s _
    refine ⟨s, rfl, rfl, fun name => .inr ⟨?_, rfl⟩⟩
    rintro v ⟨item, hitem, -⟩
    cases hitem
  | cons first items ih =>
    apply ((h first).bind ih).mono
    · rintro name v (⟨item, hitem, hv⟩ | ⟨-, hv⟩)
      · exact ⟨item, List.mem_cons_of_mem _ hitem, hv⟩
      · exact ⟨first, List.mem_cons_self, hv⟩
    · rintro name v ⟨item, hitem, hv⟩
      rw [Table.exists_over]
      rcases List.mem_cons.1 hitem with rfl | hitem
      · exact .inr ⟨v, hv⟩
      · exact .inl ⟨v, item, hitem, hv⟩

end Run

/-! ## Natives -/

theorem fills_bind (place : ScopeId) (name : String) (v : Value) :
    Run.Fills (fun other w => other = name ∧ w = v) place (Run.bind place name v) := by
  intro s hplace
  refine ⟨s.bind place name v, rfl, Store.size_scopes_bind .., fun other => ?_⟩
  rw [Store.local?_bind s hplace]
  by_cases h : other = name
  · exact .inl ⟨v, ⟨h, rfl⟩, if_pos ⟨rfl, h⟩⟩
  · exact .inr ⟨fun w hw => h hw.1, if_neg fun hw => h hw.2⟩

/-- The name of an object, whatever identity the object gets. -/
def newEntry (bound : String) (object : Identity → Value) : Table := fun name v =>
  name = bound ∧ ∃ identity, v = object identity

theorem fills_bindNew (place : ScopeId) (bound : String) (object : Identity → Value) :
    Run.Fills (newEntry bound object) place
      (do Run.bind place bound (object (← Run.reserve 1))) := by
  intro s hplace
  obtain ⟨t, hrun, hsize, hbound⟩ :=
    fills_bind place bound (object s.nextIdentity) (s.reserve 1).2 hplace
  refine ⟨t, hrun, hsize, fun name => ?_⟩
  rcases hbound name with ⟨v, ⟨hname, hv⟩, hlocal⟩ | ⟨hnone, hlocal⟩
  · exact .inl ⟨v, ⟨hname, _, hv⟩, hlocal⟩
  · exact .inr ⟨fun v hv => hnone _ ⟨hv.1, rfl⟩, hlocal⟩

theorem fills_bindNative (place : ScopeId) (bound own : String) (operation : Operation) :
    Run.Fills (newEntry bound (.native · own operation)) place
      (bindNative place bound own operation) :=
  fills_bindNew place bound (.native · own operation)

/-- The standard natives and the constant. -/
inductive Standard (root : ScopeId) : Table where
  | primitive {name : String} {primitive : Primitive} (identity : Identity)
      (h : (name, primitive) ∈ standardPrimitives) :
      Standard root name (.native identity name (.primitive primitive))
  | pi : Standard root "pi" (.float Arithmetic.pi)
  | print (identity : Identity) :
      Standard root "print" (.native identity "print" (.primitive .print))
  | setGlobal (identity : Identity) :
      Standard root "set-global" (.native identity "set-global" (.setGlobal root))

theorem fills_bindStandard (root : ScopeId) :
    Run.Fills (Standard root) root (bindStandard root) := by
  have hprimitives := Run.fills_forM standardPrimitives fun entry =>
    fills_bindNative root entry.1 entry.1 (.primitive entry.2)
  have hpi := fills_bind root "pi" (.float Arithmetic.pi)
  have hprint := fills_bindNative root "print" "print" (.primitive .print)
  have hsetGlobal := fills_bindNative root "set-global" "set-global" (.setGlobal root)
  apply (hprimitives.bind (hpi.bind (hprint.bind hsetGlobal))).mono
  · rintro name v (((⟨rfl, i, rfl⟩ | ⟨-, rfl, i, rfl⟩) | ⟨-, rfl, rfl⟩) |
      ⟨-, ⟨_, primitive⟩, hmem, rfl, i, rfl⟩)
    · exact .setGlobal i
    · exact .print i
    · exact .pi
    · exact .primitive i hmem
  · intro name v h
    simp only [Table.exists_over]
    cases h with
    | primitive identity hmem => exact .inr ⟨_, _, hmem, rfl, identity, rfl⟩
    | pi => exact .inl (.inr ⟨_, rfl, rfl⟩)
    | print identity => exact .inl (.inl (.inr ⟨_, rfl, identity, rfl⟩))
    | setGlobal identity => exact .inl (.inl (.inl ⟨_, rfl, identity, rfl⟩))

/-- The native of a registration.  One that was made before is the same in every root. -/
def Registered.Yields (entry : Registered) (v : Value) : Prop :=
  ∃ identity, (entry.wrapped = true → identity = entry.identity) ∧
    v = .native identity entry.nativeName (.host entry.function)

theorem Registered.Yields.eq_of_wrapped {entry : Registered} {v w : Value} (h : entry.Yields v)
    (h' : entry.Yields w) (hwrapped : entry.wrapped = true) : v = w := by
  obtain ⟨i, hi, rfl⟩ := h
  obtain ⟨j, hj, rfl⟩ := h'
  rw [hi hwrapped, hj hwrapped]

theorem fills_bindIn (root : ScopeId) (entry : Registered) :
    Run.Fills (fun name v => name = entry.name ∧ entry.Yields v) root (entry.bindIn root) := by
  unfold Registered.bindIn
  split
  · rename_i hwrapped
    apply (fills_bind root entry.name _).mono
    · rintro name v ⟨rfl, rfl⟩
      exact ⟨rfl, entry.identity, fun _ => rfl, rfl⟩
    · rintro name v ⟨rfl, -⟩
      exact ⟨_, rfl, rfl⟩
  · rename_i hwrapped
    apply (fills_bindNative root entry.name _ _).mono
    · rintro name v ⟨rfl, i, rfl⟩
      exact ⟨rfl, i, fun h => absurd h hwrapped, rfl⟩
    · rintro name v ⟨rfl, -⟩
      exact ⟨.native 0 _ _, rfl, 0, rfl⟩

/-- The natives of the registered functions. -/
def registered (entries : List Registered) : Table := fun name v =>
  ∃ entry, Registered.find? name entries = some entry ∧ entry.Yields v

theorem fills_registrations (root : ScopeId) {entries : List Registered}
    (hnames : (entries.map (·.name)).Nodup) :
    Run.Fills (registered entries) root (entries.forM (·.bindIn root)) := by
  have hrow := Run.fills_forM entries fun entry => fills_bindIn root entry
  apply hrow.mono
  · rintro name v ⟨entry, hmem, rfl, hv⟩
    exact ⟨entry, findNamed_of_mem hnames hmem, hv⟩
  · rintro name v ⟨entry, hfound, hv⟩
    have hname : entry.name = name := by simpa using List.find?_some hfound
    exact ⟨v, entry, List.mem_of_find?_eq_some hfound, hname.symm, hv⟩

theorem find?_eq_none_of_not_registered {entries : List Registered} {name : String}
    (h : ∀ v, ¬ registered entries name v) : Registered.find? name entries = none := by
  cases hfound : Registered.find? name entries with
  | none => rfl
  | some entry => exact absurd ⟨entry, hfound, entry.identity, fun _ => rfl, rfl⟩ (h _)

/-- What a new root binds a name to in front of the prelude, when the function is
registered under it that is given, if any. -/
inductive Restored (root : ScopeId) (name : String) :
    Option Registered → Option Value → Prop where
  | host {entry : Registered} {v : Value} (h : entry.Yields v) :
      Restored root name (some entry) (some v)
  | standard {v : Value} (h : Standard root name v) : Restored root name none (some v)
  | nothing (h : ∀ v, ¬ Standard root name v) : Restored root name none none

/-- A new root in front of the prelude. -/
def bindNatives (registrations : List Registered) (root : ScopeId) : Run Unit := do
  bindStandard root
  registrations.forM (·.bindIn root)

theorem restored_bindNatives {registrations : List Registered}
    (hnames : (registrations.map (·.name)).Nodup) {root : ScopeId} {s : Store}
    (hroot : root < s.scopes.size) (hempty : ∀ name, s.local? root name = none) :
    ∃ t, bindNatives registrations root s = .ok () t ∧ root < t.scopes.size ∧ ∀ name,
      Restored root name (Registered.find? name registrations) (t.local? root name) := by
  obtain ⟨t, hrun, hsize, hbound⟩ :=
    (fills_bindStandard root).bind (fills_registrations root hnames) s hroot
  refine ⟨t, hrun, by rw [hsize]; exact hroot, fun name => ?_⟩
  rcases hbound name with ⟨v, ⟨entry, hfound, hv⟩ | ⟨hnone, hv⟩, hlocal⟩ | ⟨hnone, hlocal⟩
  · rw [hlocal, hfound]
    exact .host hv
  · rw [hlocal, find?_eq_none_of_not_registered hnone]
    exact .standard hv
  · rw [hlocal, hempty, find?_eq_none_of_not_registered fun v hv => hnone v (.inl hv)]
    refine .nothing fun v hv => hnone v (.inr ⟨fun w hw => hnone w (.inl hw), hv⟩)

/-! ## Sessions -/

namespace Store

variable {s : Store}

theorem local?_withRoot (name : String) : s.withRoot.local? s.scopes.size name = none := by
  rw [local?]
  show (s.addScope (.empty none)).2.scopes[s.scopes.size]?.bind _ = none
  rw [getElem?_addScope_self]
  rfl

/-- Nothing lies around a root. -/
theorem Rooted.exists_outermost (h : s.Rooted) :
    ∃ scope : Scope, s.scopes[s.root]? = some scope ∧ scope.outer = none := by
  obtain ⟨scope, hscope⟩ : ∃ scope, s.scopes[s.root]? = some scope :=
    ⟨_, Array.getElem?_eq_getElem h.root_lt⟩
  have hnone := h.root_outer
  rw [outer?, hscope] at hnone
  exact ⟨scope, hscope, hnone⟩

/-- A search that begins at a root ends there. -/
theorem Rooted.lookup?_root (h : s.Rooted) (name : String) :
    s.lookup? s.root name = s.local? s.root name := by
  obtain ⟨scope, hscope, houter⟩ := h.exists_outermost
  rw [lookup?, path_of_outermost hscope houter]
  cases hlocal : s.local? s.root name <;> simp [hlocal]

theorem Rooted.owner?_root (h : s.Rooted) {name : String} {v : Value}
    (hv : s.local? s.root name = some v) : s.owner? s.root name = some s.root := by
  obtain ⟨scope, hscope, houter⟩ := h.exists_outermost
  rw [local?, hscope] at hv
  exact owner?_of_outermost hscope houter hv

end Store

namespace Session

/-- What looking up a name gives that is bound to the value that is given, if any. -/
def answer (name : String) (session : Session) : Option Value → EStateM.Result Stop Session Value
  | some v => .ok v session
  | none => .error (.error (.unbound name)) session

theorem lookup_eq {session : Session} (h : session.store.Rooted) (name : String) :
    Session.lookup name session =
      answer name session (session.store.local? session.store.root name) := by
  have hrun : (do Run.lookup (← get).root name : Run Value) session.store =
      Run.lookup session.store.root name session.store := rfl
  unfold Session.lookup Interaction.onRoot Interaction.onStore
  rw [hrun, ← h.lookup?_root]
  cases hlookup : session.store.lookup? session.store.root name with
  | some v =>
    rw [Run.lookup_of_some hlookup]
    rfl
  | none =>
    rw [Run.lookup_of_none hlookup]
    rfl

/-- The registrations after a request. -/
def Request.registrations (registrations : List Registration) : Request → List Registration
  | register registration => registration.add registrations
  | reset .. | eval .. => registrations

/-- The registration that counts for a name after a request. -/
def Request.registered (name : String) (before : Option Registration) :
    Request → Option Registration
  | register registration => if registration.name = name then some registration else before
  | reset .. | eval .. => before

/-- The registration that counts for a name after some requests: the last one. -/
def lastRegistered (name : String) (before : Option Registration) (requests : List Request) :
    Option Registration :=
  requests.foldl (Request.registered name) before

theorem nodup_registrations (request : Request) {registrations : List Registration}
    (h : (registrations.map (·.name)).Nodup) :
    ((request.registrations registrations).map (·.name)).Nodup := by
  cases request with
  | register registration => exact nodup_putNamed registration h
  | reset | eval => exact h

theorem find?_registrations (request : Request) (registrations : List Registration)
    (name : String) :
    Registration.find? name (request.registrations registrations) =
      request.registered name (Registration.find? name registrations) := by
  cases request with
  | register registration => exact findNamed_putNamed registration registrations name
  | reset | eval => rfl

/-- A request keeps the prelude and changes the registrations only by registering. -/
theorem kept_perform (hosts : Hosts) (request : Request) (session : Session) :
    (left (request.perform (Machine.ofDepth hosts) session)).prelude = session.prelude ∧
      (left (request.perform (Machine.ofDepth hosts) session)).registrations.map
          (·.toRegistration) =
        request.registrations (session.registrations.map (·.toRegistration)) := by
  cases request with
  | reset rounds depth =>
    rw [perform_reset, prelude_left_put, registrations_left_put]
    exact ⟨rfl, rfl⟩
  | eval rounds depth source =>
    rw [perform_eval, prelude_left_put, registrations_left_put]
    exact ⟨rfl, rfl⟩
  | register registration =>
    rw [perform_register, prelude_left_put, registrations_left_put]
    exact ⟨rfl, Registered.map_add ..⟩

/-- A session keeps its prelude and one registration for each name, the last one. -/
theorem kept_after (hosts : Hosts) {session : Session} (requests : List Request)
    (hnames : (session.registrations.map (·.name)).Nodup) :
    (after hosts requests session).prelude = session.prelude ∧
      ((after hosts requests session).registrations.map (·.name)).Nodup ∧
      ∀ name, (Registered.find? name (after hosts requests session).registrations).map
          (·.toRegistration) =
        lastRegistered name ((Registered.find? name session.registrations).map (·.toRegistration))
          requests := by
  induction requests generalizing session with
  | nil => exact ⟨rfl, hnames, fun _ => rfl⟩
  | cons request requests ih =>
    obtain ⟨hprelude, hregistrations⟩ := kept_perform hosts request session
    rw [Registered.map_name] at hnames
    have hnames' := nodup_registrations request hnames
    rw [← hregistrations, ← Registered.map_name] at hnames'
    obtain ⟨hkept, hnodup, hfound⟩ := ih hnames'
    refine ⟨hkept.trans hprelude, hnodup, fun name => (hfound name).trans ?_⟩
    rw [Registered.map_find?, hregistrations, find?_registrations, ← Registered.map_find?]
    rfl

/-- A reset loads the prelude over the natives, into a root that was empty before. -/
theorem perform_reset_over_natives (rounds depth : Nat) {session : Session}
    (hnames : (session.registrations.map (·.name)).Nodup) :
    ∃ base : Store,
      (Request.reset rounds depth).perform (Machine.ofDepth hosts) session = session.put
        (session.prelude.load (Machine.ofDepth hosts rounds depth) session.store.scopes.size base) ∧
      session.store.scopes.size < base.scopes.size ∧
      ∀ name, Restored session.store.scopes.size name
        (Registered.find? name session.registrations)
        (base.local? session.store.scopes.size name) := by
  have hroot : session.store.scopes.size < session.store.withRoot.scopes.size := by
    rw [Store.withRoot, Store.size_addScope]
    exact Nat.lt_succ_self _
  obtain ⟨base, hbase, hrestored⟩ :=
    restored_bindNatives hnames hroot fun name => Store.local?_withRoot name
  refine ⟨base, ?_, hrestored⟩
  have hfill : fillRoot (Machine.ofDepth hosts rounds depth) session.prelude session.registrations
      session.store.scopes.size = (do
        bindNatives session.registrations session.store.scopes.size
        session.prelude.load (Machine.ofDepth hosts rounds depth) session.store.scopes.size) := by
    rw [fillRoot, bindNatives, bind_assoc]
  rw [perform_reset, hfill, Run.bind_of_ok hbase]

/-- A run that is confined to a session keeps its root. -/
theorem root_of_agree {α : Type} {P : Store → α → Prop} {run run' : Run α} {s : Store}
    (h : s.Rooted) (hagree : Run.Agree h.confinement.discipline s P run run') :
    (Run.left (run s)).root = s.root := by
  have hstart : h.confinement.Keeps s := Confinement.keeps_start
  have hends := (hagree s hstart (Store.grows_refl s)).2
  have hkeeps : h.confinement.Keeps (Run.left (run s)) := hends.left.1
  exact hkeeps.root

/-- A reset leaves the new root behind, also when the prelude fails. -/
theorem root_reset (hosts : Hosts) [hosts.Coupled] (rounds depth : Nat) {session : Session}
    (h : session.store.Sound) :
    (left ((Request.reset rounds depth).perform (Machine.ofDepth hosts) session)).store.root =
      session.store.scopes.size := by
  have hrooted := h.rooted_withRoot
  have hagree := agree_fillRoot (Machine.agree_ofDepth hosts rounds depth) hrooted.allowsNatives
    session.prelude session.registrations
  rw [perform_reset, store_left_put]
  exact root_of_agree hrooted hagree

theorem eq_ok_of_put_eq_ok {session session' : Session} {result : EStateM.Result Stop Store Unit}
    (h : session.put result = .ok () session') : result = .ok () session'.store := by
  cases result <;> cases h
  rfl

theorem kept_start (hosts : Hosts) (rounds depth : Nat) (prelude : Prelude)
    (registrations : List Registration) :
    (start hosts rounds depth prelude registrations).prelude = prelude ∧
      (start hosts rounds depth prelude registrations).registrations.map (·.toRegistration) =
        registrations := by
  obtain ⟨hprelude, hregistrations⟩ :=
    kept_perform hosts (.reset rounds depth) (new prelude registrations)
  exact ⟨hprelude, hregistrations.trans (Registered.map_row registrations)⟩

theorem rooted_start (hosts : Hosts) [hosts.Coupled] (rounds depth : Nat) (prelude : Prelude)
    (registrations : List Registration) :
    (start hosts rounds depth prelude registrations).store.Rooted := by
  have hfirst : Step hosts (.reset rounds depth) (new prelude registrations) :=
    step_reset hosts rounds depth (Store.sound_empty.reserve registrations.length)
  exact hfirst.rooted

/-- A session that was begun with one registration for each name keeps its prelude, and of the
registrations the last one for each name. -/
theorem kept_after_start (hosts : Hosts) (rounds depth : Nat) (prelude : Prelude)
    {registrations : List Registration} (hnames : (registrations.map (·.name)).Nodup)
    (history : List Request) :
    let used := after hosts history (start hosts rounds depth prelude registrations)
    used.prelude = prelude ∧ (used.registrations.map (·.name)).Nodup ∧
      ∀ name, (Registered.find? name used.registrations).map (·.toRegistration) =
        lastRegistered name (Registration.find? name registrations) history := by
  intro used
  obtain ⟨hprelude, hregistrations⟩ := kept_start hosts rounds depth prelude registrations
  have hfirst : ((start hosts rounds depth prelude registrations).registrations.map
      (·.name)).Nodup := by
    rw [Registered.map_name, hregistrations]
    exact hnames
  obtain ⟨hprelude', hnames', hfound⟩ := kept_after hosts history hfirst
  refine ⟨hprelude'.trans hprelude, hnames', fun name => ?_⟩
  rw [hfound, Registered.map_find?, hregistrations]

/-- What a session is after a reset, in terms of what it was begun with. -/
theorem perform_reset_after (hosts : Hosts) [hosts.Coupled] (rounds depth : Nat)
    (prelude : Prelude) {registrations : List Registration}
    (hnames : (registrations.map (·.name)).Nodup) (history : List Request)
    (rounds' depth' : Nat) :
    let used := after hosts history (start hosts rounds depth prelude registrations)
    (∀ name, (Registered.find? name used.registrations).map (·.toRegistration) =
      lastRegistered name (Registration.find? name registrations) history) ∧
    ∃ (root : ScopeId) (base : Store),
      (Request.reset rounds' depth').perform (Machine.ofDepth hosts) used =
        used.put (prelude.load (Machine.ofDepth hosts rounds' depth') root base) ∧
      root < base.scopes.size ∧
      (∀ name, Restored root name (Registered.find? name used.registrations)
        (base.local? root name)) ∧
      ∀ session, (Request.reset rounds' depth').perform (Machine.ofDepth hosts) used =
          .ok () session →
        session.store.root = root ∧ session.store.Rooted := by
  intro used
  obtain ⟨hprelude, hnames', hfound⟩ :=
    kept_after_start hosts rounds depth prelude hnames history
  have hsound : used.store.Sound :=
    (rooted_after history (rooted_start hosts rounds depth prelude registrations)).toSound
  obtain ⟨base, hload, hlt, hrestored⟩ := perform_reset_over_natives rounds' depth' hnames'
  have hroot := root_reset hosts rounds' depth' hsound
  have hrooted := (step_reset hosts rounds' depth' hsound).rooted
  rw [hprelude] at hload
  refine ⟨hfound, _, base, hload, hlt, hrestored, fun session hreset => ?_⟩
  rw [hreset] at hroot hrooted
  exact ⟨hroot, hrooted⟩

/-! ## Natives that were made before -/

/-- The request registers a function under the name. -/
def Request.Registers (name : String) : Request → Prop
  | register registration => registration.name = name
  | reset .. | eval .. => False

/-- What is registered under a name stays so until something else is. -/
theorem find?_after (hosts : Hosts) {name : String} {session : Session} (requests : List Request)
    (h : ∀ request ∈ requests, ¬ request.Registers name) :
    Registered.find? name (after hosts requests session).registrations =
      Registered.find? name session.registrations := by
  induction requests generalizing session with
  | nil => rfl
  | cons request requests ih =>
    refine (ih fun other hother => h other (List.mem_cons_of_mem _ hother)).trans ?_
    show Registered.find? name
      (left (request.perform (Machine.ofDepth hosts) session)).registrations = _
    cases request with
    | reset rounds depth => rw [perform_reset, registrations_left_put]
    | eval rounds depth source => rw [perform_eval, registrations_left_put]
    | register registration =>
      have hne : registration.name ≠ name := h _ List.mem_cons_self
      rw [perform_register, registrations_left_put]
      exact (findNamed_putNamed ..).trans (if_neg hne)

/-- A function is found under its name when it has just been registered. -/
theorem yields_register {session : Session} (h : session.store.Rooted)
    (machine : Nat → Nat → Machine) (registration : Registration) :
    let entry : Registered := ⟨registration, session.store.nextIdentity⟩
    let registering := left ((Request.register registration).perform machine session)
    Registered.find? registration.name registering.registrations = some entry ∧
      ∃ v, entry.Yields v ∧
        registering.store.local? registering.store.root registration.name = some v := by
  intro entry registering
  have hrooted := h.reserve 1
  obtain ⟨t, hrun, -, hbound⟩ := fills_bindIn session.store.root entry _ hrooted.root_lt
  have hroot : (Run.left (entry.bindIn session.store.root (session.store.reserve 1).2)).root =
      session.store.root := root_of_agree hrooted (agree_bindIn hrooted.allowsNatives entry)
  have hstore : registering.store = t := by
    unfold registering
    rw [perform_register, store_left_put, hrun]
    rfl
  refine ⟨?_, ?_⟩
  · unfold registering
    rw [perform_register, registrations_left_put]
    exact (findNamed_putNamed ..).trans (if_pos rfl)
  · rw [hrun] at hroot
    replace hroot : t.root = session.store.root := hroot
    rw [hstore, hroot]
    rcases hbound registration.name with ⟨v, ⟨-, hv⟩, hlocal⟩ | ⟨hnone, -⟩
    · exact ⟨v, hv, hlocal⟩
    · exact absurd ⟨rfl, entry.identity, fun _ => rfl, rfl⟩ (hnone _)

/-- A native that was made before it was registered is the same object as ever, in every new
root in front of the prelude, until something else is registered under the name. -/
theorem eq_local?_of_restored [hosts.Coupled] {session : Session} (h : session.store.Rooted)
    (front : List Request) {registration : Registration} (hwrapped : registration.wrapped = true)
    {behind : List Request}
    (hbehind : ∀ request ∈ behind, ¬ request.Registers registration.name) {root : ScopeId}
    {found : Option Value} :
    let registering := after hosts (front ++ [.register registration]) session
    let used := after hosts (front ++ .register registration :: behind) session
    Restored root registration.name (Registered.find? registration.name used.registrations)
        found →
      found = registering.store.local? registering.store.root registration.name := by
  intro registering used hrestored
  have hregistering : registering = left ((Request.register registration).perform
      (Machine.ofDepth hosts) (after hosts front session)) := List.foldl_append
  have hused : used = after hosts behind registering := by
    unfold used registering
    rw [List.append_cons]
    exact List.foldl_append
  have hfront : (after hosts front session).store.Rooted := rooted_after front h
  obtain ⟨hfound, v, hv, hlocal⟩ := yields_register hfront (Machine.ofDepth hosts) registration
  rw [← hregistering] at hfound hlocal
  rw [hused, find?_after hosts behind hbehind, hfound] at hrestored
  rw [hlocal]
  cases hrestored with
  | host hw => exact congrArg some (hw.eq_of_wrapped hv hwrapped)

/-- After a reset that ends well the prelude has been loaded over the natives.  A name
that the prelude leaves as it finds it then means the function that was registered last
under it, if there is one, or else the standard native or the constant of that name, or
else nothing, whatever was evaluated before.  A native that was made before it was registered
is the same object as ever. -/
theorem reset_restores (hosts : Hosts) [hosts.Coupled] (rounds depth : Nat) (prelude : Prelude)
    {registrations : List Registration} (hnames : (registrations.map (·.name)).Nodup)
    (history : List Request) (rounds' depth' : Nat) {session : Session}
    (hreset : (Request.reset rounds' depth').perform (Machine.ofDepth hosts)
      (after hosts history (start hosts rounds depth prelude registrations)) = .ok () session) :
    let first := start hosts rounds depth prelude registrations
    let used := after hosts history first
    (∀ name, (Registered.find? name used.registrations).map (·.toRegistration) =
      lastRegistered name (Registration.find? name registrations) history) ∧
    ∃ base : Store,
      prelude.load (Machine.ofDepth hosts rounds' depth') session.store.root base =
        .ok () session.store ∧
      (∀ name, Restored session.store.root name (Registered.find? name used.registrations)
        (base.local? session.store.root name)) ∧
      (∀ front registration behind, history = front ++ .register registration :: behind →
        (∀ request ∈ behind, ¬ request.Registers registration.name) →
        registration.wrapped = true →
        let registering := after hosts (front ++ [.register registration]) first
        base.local? session.store.root registration.name =
          registering.store.local? registering.store.root registration.name) ∧
      ∀ name, session.store.local? session.store.root name =
          base.local? session.store.root name →
        ∃ found,
          Restored session.store.root name (Registered.find? name used.registrations) found ∧
          Session.lookup name session = answer name session found := by
  intro first used
  obtain ⟨hregistered, root, base, hload, -, hrestored, hsession⟩ :=
    perform_reset_after hosts rounds depth prelude hnames history rounds' depth'
  obtain ⟨rfl, hrooted⟩ := hsession session hreset
  rw [hreset] at hload
  refine ⟨hregistered, base, eq_ok_of_put_eq_ok hload.symm, hrestored, ?_, fun name hkept => ?_⟩
  · rintro front registration behind rfl hbehind hwrapped
    have hfirst : first.store.Rooted := rooted_start hosts rounds depth prelude registrations
    exact eq_local?_of_restored hfirst front hwrapped hbehind (hrestored registration.name)
  · refine ⟨_, hrestored name, ?_⟩
    rw [← hkept]
    exact lookup_eq hrooted name

/-- Without a prelude a function that is registered while the session is used is there after a
reset, also when its name was bound to something else in between. -/
theorem reset_restores_square :
    let square : Registration := ⟨"square", .twice, false⟩
    let history := [Request.register square, .eval 1 9 "(define square ())"]
    usualHosts.Coupled ∧ (([] : List Registration).map (·.name)).Nodup ∧ ∃ session,
      (Request.reset 1 9).perform (Machine.ofDepth usualHosts)
          (after usualHosts history (start usualHosts 1 9 .none [])) = .ok () session ∧
      ∃ identity, Session.lookup "square" session =
        .ok (.native identity "square" (.host .twice)) session := by
  intro square history
  have hnames : (([] : List Registration).map (·.name)).Nodup := List.nodup_nil
  obtain ⟨-, root, base, hload, -⟩ :=
    perform_reset_after usualHosts 1 9 .none hnames history 1 9
  refine ⟨inferInstance, hnames, _, hload, ?_⟩
  obtain ⟨hregistered, base', hbase, -, -, hlookup⟩ :=
    reset_restores usualHosts 1 9 .none hnames history 1 9 hload
  cases hbase
  obtain ⟨found, hfound, hanswer⟩ := hlookup "square" rfl
  have hlast : lastRegistered "square" (Registration.find? "square" []) history = some square := rfl
  have hentry := (hregistered "square").trans hlast
  obtain ⟨entry, hsquare, hentry⟩ := Option.map_eq_some_iff.1 hentry
  rw [hsquare] at hfound
  cases hfound with
  | host hv =>
    obtain ⟨identity, -, rfl⟩ := hv
    rw [hentry] at hanswer
    exact ⟨identity, hanswer⟩

/-- The result is the native of a host function. -/
def yieldsHost (function : HostFunction) : EStateM.Result Stop Session Value → Bool
  | .ok (.native _ _ (.host other)) _ => other = function
  | _ => false

/-- The result is a procedure. -/
def yieldsProcedure : EStateM.Result Stop Session Value → Bool
  | .ok (.procedure ..) _ => true
  | _ => false

/-- A registered function is found under its name, and after a reset the procedure is found
under it that the prelude defines. -/
theorem reset_drops_registration :
    let session := after usualHosts [.register ⟨"square", .twice, false⟩]
      (start usualHosts 1 9 (.source "(define (square x) x)") [])
    yieldsHost .twice (Session.lookup "square" session) = true ∧
      yieldsProcedure ((do
        (Request.reset 1 9).perform (Machine.ofDepth usualHosts)
        Session.lookup "square" : Interaction Value) session) = true := by
  decide +kernel

/-! ## Preludes of definitions -/

/-- A procedure with a name, as it is defined in source. -/
structure Definition where
  name : String
  parameters : List String
  body : List Value

namespace Definition

/-- The definition as a form. -/
def form (definition : Definition) : Value :=
  .form (.identifier Keyword.definition.name ::
    .form (.identifier definition.name :: definition.parameters.map .identifier) ::
    definition.body)

/-- What the definition binds in a scope. -/
def entry (scope : ScopeId) (definition : Definition) : Table :=
  newEntry definition.name (.procedure · definition.parameters definition.body scope)

/-- A definition binds its name, whatever is bound already. -/
theorem fills_form (m : Machine) (scope : ScopeId) (definition : Definition) :
    Run.Fills (definition.entry scope) scope
      (do let _ ← (Machine.above hosts m).eval scope definition.form) := by
  have heval : (do let _ ← (Machine.above hosts m).eval scope definition.form : Run Unit) =
      (do Run.bind scope definition.name (.procedure (← Run.reserve 1) definition.parameters
        definition.body scope)) := by
    rw [form, SpecialForm.eval_keyword]
    show (do
      let _ ← (do
        let value ← SpecialForm.closure m .definition _ definition.body scope
        Run.bind scope definition.name value
        pure Value.undefined)
      pure () : Run Unit) = _
    rw [SpecialForm.closure_identifiers]
    simp only [bind_assoc, pure_bind]
    rfl
  rw [heval]
  exact fills_bindNew scope definition.name _

/-- A body of definitions binds their names. -/
theorem fills_body (m : Machine) (scope : ScopeId) (definitions : List Definition) :
    Run.Fills (fun name v => ∃ definition ∈ definitions, definition.entry scope name v) scope
      (do let _ ← (Machine.above hosts m).evalBody scope (definitions.map form)) := by
  let define (definition : Definition) : Run Unit := do
    let _ ← (Machine.above hosts m).eval scope definition.form
  have hrow : ∀ before,
      (do let _ ← Run.lastOf before ((Machine.above hosts m).eval scope) (definitions.map form) :
        Run Unit) = definitions.forM define := by
    induction definitions with
    | nil => exact fun _ => rfl
    | cons definition definitions ih =>
      intro before
      have hcons : (definition :: definitions).forM define =
        (do define definition; definitions.forM define) := rfl
      rw [hcons, List.map_cons, Run.lastOf, List.foldlM_cons, bind_assoc, bind_assoc]
      apply bind_congr
      intro result
      rw [pure_bind]
      exact ih result
  rw [Machine.evalBody, hrow]
  exact Run.fills_forM definitions fun definition => fills_form m scope definition

/-- A prelude of definitions binds their names. -/
theorem fills_load (m : Machine) (scope : ScopeId) {text : String} {definitions : List Definition}
    (hread : readAll (m.depth + 1) (tokenize text) = (definitions.map form, none)) :
    Run.Fills (fun name v => ∃ definition ∈ definitions, definition.entry scope name v) scope
      ((Prelude.source text).load (Machine.above hosts m) scope) := by
  have hload : (Prelude.source text).load (Machine.above hosts m) scope =
      (do let _ ← (Machine.above hosts m).evalBody scope (definitions.map form)) := by
    show (do let _ ← (Machine.above hosts m).evalTokens scope (tokenize text) : Run Unit) = _
    have hdepth : (Machine.above hosts m).depth = m.depth + 1 := rfl
    rw [Machine.evalTokens, hdepth, hread]
    simp only [bind_assoc, pure_bind]
  rw [hload]
  exact fills_body m scope definitions

end Definition

/-- A reset loads a prelude without fail that does nothing but bind names.  The names that it
does not bind mean what they mean over the natives. -/
theorem reset_over_table [hosts.Coupled] (rounds depth : Nat) {session : Session}
    (hsound : session.store.Sound) (hnames : (session.registrations.map (·.name)).Nodup)
    {table : ScopeId → Table}
    (hload : ∀ root, Run.Fills (table root) root
      (session.prelude.load (Machine.ofDepth hosts rounds depth) root)) :
    ∃ reset : Session,
      (Request.reset rounds depth).perform (Machine.ofDepth hosts) session = .ok () reset ∧
      reset.store.Rooted ∧ ∀ name,
        (∃ v, table reset.store.root name v ∧
          reset.store.local? reset.store.root name = some v) ∨
        (∀ v, ¬ table reset.store.root name v) ∧
          Restored reset.store.root name (Registered.find? name session.registrations)
            (reset.store.local? reset.store.root name) := by
  obtain ⟨base, hperform, hlt, hrestored⟩ := perform_reset_over_natives rounds depth hnames
  obtain ⟨t, hrun, -, hbound⟩ := hload _ base hlt
  rw [hrun] at hperform
  have hroot := root_reset hosts rounds depth hsound
  have hrooted := (step_reset hosts rounds depth hsound).rooted
  rw [hperform] at hroot hrooted
  refine ⟨_, hperform, hrooted, fun name => ?_⟩
  show (∃ v, table t.root name v ∧ t.local? t.root name = some v) ∨
    (∀ v, ¬ table t.root name v) ∧ Restored t.root name _ (t.local? t.root name)
  obtain hroot : t.root = session.store.scopes.size := hroot
  rw [hroot]
  rcases hbound name with hv | ⟨hnone, hlocal⟩
  · exact .inl hv
  · rw [hlocal]
    exact .inr ⟨hnone, hrestored name⟩

/-- A reset loads a prelude of definitions without fail.  A name that the prelude defines
then means its procedure, also if a function is registered under it. -/
theorem reset_over_definitions [hosts.Coupled] (rounds depth : Nat) {text : String}
    {definitions : List Definition} {registrations : List Registration}
    (hnames : (registrations.map (·.name)).Nodup) (history : List Request) (rounds' depth' : Nat)
    (hread : readAll (depth' + 1) (tokenize text) =
      (definitions.map Definition.form, none)) :
    let used := after hosts history (start hosts rounds depth (.source text) registrations)
    ∃ session,
      (Request.reset rounds' (depth' + 1)).perform (Machine.ofDepth hosts) used = .ok () session ∧
      ∀ name,
        (∃ definition ∈ definitions, definition.name = name ∧ ∃ identity,
          Session.lookup name session = .ok (.procedure identity definition.parameters
            definition.body session.store.root) session) ∨
        (∀ definition ∈ definitions, definition.name ≠ name) ∧ ∃ found,
          Restored session.store.root name (Registered.find? name used.registrations) found ∧
          Session.lookup name session = answer name session found := by
  intro used
  rw [← @Machine.depth_ofDepth hosts rounds' depth'] at hread
  obtain ⟨hprelude, hnames', -⟩ :=
    kept_after_start hosts rounds depth (.source text) hnames history
  have hsound : used.store.Sound :=
    (rooted_after history (rooted_start hosts rounds depth (.source text) registrations)).toSound
  obtain ⟨session, hreset, hrooted, hbound⟩ :=
    reset_over_table rounds' (depth' + 1) hsound hnames' fun root => by
      rw [hprelude]
      exact Definition.fills_load (Machine.ofDepth hosts rounds' depth') root hread
  refine ⟨session, hreset, fun name => ?_⟩
  rw [lookup_eq hrooted]
  rcases hbound name with ⟨v, ⟨definition, hmem, hname, identity, rfl⟩, hlocal⟩ |
    ⟨hnone, hrestored⟩
  · exact .inl ⟨definition, hmem, hname.symm, identity, by rw [hlocal]; rfl⟩
  · exact .inr ⟨fun definition hmem hname => hnone _ ⟨definition, hmem, hname.symm, 0, rfl⟩,
      _, hrestored, rfl⟩

end Session

end TinyLisp
