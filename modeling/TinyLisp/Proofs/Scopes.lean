import Mathlib.Logic.Relation
import TinyLisp.Proofs.Syntax
import TinyLisp.Store

/-!
# Scopes and what leads to them

A scope can be got at from another one through the scopes around it and
through the values that it binds: a procedure holds the scope it was made in.

There are six groups.

* `Value.mentions`: the scopes that a value holds.
* `Store.Link` and `Store.Reaches`: one step from scope to scope, and any
  number of steps.
* `Store.Chain`: the scopes from one scope outwards up to one without a scope
  around it.  `Store.chain_path` says that `Store.path` is such a chain when
  every scope is younger than the one around it.
* Bindings that were there before and bindings that are new.
* What the changes of a store do to its links.  `Store.Grows` says that no
  scope is lost and that none gets another scope around it.
* What stays the same: other bindings, and the way out of every scope however the
  store grows.
-/

namespace TinyLisp

/-! ## What values hold -/

namespace Value

mutual

/-- The scopes that a value holds, where `root` is the root of the session: the
scopes of its procedures, also inside pairs and behind callbacks, and the scopes
from which setters of global names start.  A host function that evaluates a
source holds the root. -/
def mentions (root : ScopeId) : Value → List ScopeId
  | form items => mentionsOfAll root items
  | embedded _ value => mentions root value
  | pair _ head tail => mentions root head ++ mentions root tail
  | procedure _ _ body scope => scope :: mentionsOfAll root body
  | native _ _ (.setGlobal scope) => [scope]
  | native _ _ (.host function) => if function.evaluates then [root] else []
  | callback _ target => mentions root target
  | _ => []

/-- The scopes that several values hold. -/
def mentionsOfAll (root : ScopeId) : List Value → List ScopeId
  | [] => []
  | item :: items => mentions root item ++ mentionsOfAll root items

end

variable {root : ScopeId}

theorem mem_mentionsOfAll {scope : ScopeId} {items : List Value} :
    scope ∈ mentionsOfAll root items ↔ ∃ item ∈ items, scope ∈ item.mentions root := by
  induction items with
  | nil => simp [mentionsOfAll]
  | cons item items ih => simp [mentionsOfAll, ih]

/-- A host function holds the root if it evaluates texts there. -/
theorem mem_mentions_host {scope : ScopeId} {identity : Identity} {own : String}
    {function : HostFunction} :
    scope ∈ (native identity own (.host function)).mentions root ↔
      function.evaluates = true ∧ scope = root := by
  rw [mentions]
  split <;> simp_all

/-- Source holds no scopes. -/
theorem mentions_of_isSyntax {tree : Value} (h : tree.IsSyntax) : tree.mentions root = [] := by
  induction h with
  | float value => rfl
  | string text => rfl
  | identifier name => rfl
  | form hitems ih =>
    rw [mentions]
    apply List.eq_nil_iff_forall_not_mem.2
    intro scope hscope
    obtain ⟨item, hitem, hscope⟩ := mem_mentionsOfAll.1 hscope
    rw [ih item hitem] at hscope
    cases hscope

/-- A value holds the same scopes in every session, apart from the root. -/
theorem mem_mentions_of_root (root : ScopeId) {other scope : ScopeId} :
    ∀ value : Value, scope ∈ value.mentions other → scope ∈ value.mentions root ∨ scope = other
  | form items, h => by
    rw [mentions] at h ⊢
    obtain ⟨item, hitem, hscope⟩ := mem_mentionsOfAll.1 h
    refine (mem_mentions_of_root root item hscope).imp_left fun hscope => ?_
    exact mem_mentionsOfAll.2 ⟨item, hitem, hscope⟩
  | embedded _ value, h => by
    rw [mentions] at h ⊢
    exact mem_mentions_of_root root value h
  | pair _ head tail, h => by
    rw [mentions, List.mem_append] at h ⊢
    rcases h with h | h
    · rcases mem_mentions_of_root root head h with h | h
      · exact .inl (.inl h)
      · exact .inr h
    · rcases mem_mentions_of_root root tail h with h | h
      · exact .inl (.inr h)
      · exact .inr h
  | procedure _ _ body place, h => by
    rw [mentions, List.mem_cons] at h ⊢
    rcases h with h | h
    · exact .inl (.inl h)
    · obtain ⟨item, hitem, hscope⟩ := mem_mentionsOfAll.1 h
      refine (mem_mentions_of_root root item hscope).imp_left fun hscope => .inr ?_
      exact mem_mentionsOfAll.2 ⟨item, hitem, hscope⟩
  | native _ _ (.setGlobal _), h => .inl h
  | native _ _ (.host _), h => .inr (mem_mentions_host.1 h).2
  | callback _ target, h => by
    rw [mentions] at h ⊢
    exact mem_mentions_of_root root target h
  | nil, h | undefined, h | bool _, h | int _, h | float _, h | string _, h | symbol _, h
  | identifier _, h | native _ _ (.primitive _), h => by cases h

end Value

/-! ## From scope to scope -/

namespace Store

/-- The scope around a scope. -/
def outer? (s : Store) (place : ScopeId) : Option ScopeId :=
  s.scopes[place]?.bind Scope.outer

/-- A scope binds a value to some name. -/
def Contains (s : Store) (place : ScopeId) (v : Value) : Prop :=
  ∃ scope, s.scopes[place]? = some scope ∧ ∃ name, (name, v) ∈ scope.bindings

/-- One scope leads to another: it lies inside it, or it binds a value that
holds it. -/
inductive Link (s : Store) : ScopeId → ScopeId → Prop where
  | outer {place outer : ScopeId} (houter : s.outer? place = some outer) : Link s place outer
  | value {place held : ScopeId} {v : Value} (hv : s.Contains place v)
      (hheld : held ∈ v.mentions s.root) : Link s place held

/-- One scope can be got at from another one. -/
def Reaches (s : Store) : ScopeId → ScopeId → Prop :=
  Relation.ReflTransGen s.Link

/-- What holds of a scope and passes along every link holds of all that the
scope reaches. -/
theorem Reaches.pass {s : Store} {P : ScopeId → Prop} {place reached : ScopeId}
    (h : s.Reaches place reached) (hplace : P place) (hlink : ∀ i j, P i → s.Link i j → P j) :
    P reached := by
  induction h with
  | refl => exact hplace
  | tail _ hstep ih => exact hlink _ _ ih hstep

/-! ## Chains -/

/-- The scopes from one scope outwards, up to a scope without a scope around it. -/
inductive Chain (s : Store) : ScopeId → List ScopeId → Prop where
  | last {place : ScopeId} (hplace : place < s.scopes.size) (houter : s.outer? place = none) :
      Chain s place [place]
  | link {place outer : ScopeId} {places : List ScopeId} (houter : s.outer? place = some outer)
      (hplaces : Chain s outer places) : Chain s place (place :: places)

variable {s : Store}

/-- What passes from scopes to the scopes around them holds along a path. -/
theorem forall_mem_pathWithin {P : ScopeId → Prop} (hP : ∀ i j, s.outer? i = some j → P i → P j)
    (count : Nat) {place : ScopeId} (h : P place) : ∀ i ∈ s.pathWithin count place, P i := by
  induction count generalizing place with
  | zero =>
    intro i hi
    cases hi
  | succ count ih =>
    unfold pathWithin
    split
    · intro i hi
      cases hi
    · intro i hi
      rcases List.mem_singleton.1 hi with rfl
      exact h
    · rename_i outer bindings hscope
      have houter : s.outer? place = some outer := by rw [outer?, hscope]; rfl
      exact List.forall_mem_cons.2 ⟨h, ih (hP place outer houter h)⟩

theorem forall_mem_path {P : ScopeId → Prop} (hP : ∀ i j, s.outer? i = some j → P i → P j)
    {place : ScopeId} (h : P place) : ∀ i ∈ s.path place, P i :=
  forall_mem_pathWithin hP s.scopes.size h

/-- A path is cut off nowhere when it has room for all earlier scopes. -/
theorem chain_pathWithin (hearlier : ∀ i j, s.outer? i = some j → j < i) (count : Nat)
    {place : ScopeId} (hcount : place < count) (hplace : place < s.scopes.size) :
    s.Chain place (s.pathWithin count place) := by
  induction count generalizing place with
  | zero => exact absurd hcount (Nat.not_lt_zero place)
  | succ count ih =>
    have hscope : s.scopes[place]? = some s.scopes[place] := Array.getElem?_eq_getElem hplace
    generalize s.scopes[place] = scope at hscope
    obtain ⟨outer, bindings⟩ := scope
    unfold pathWithin
    rw [hscope]
    have houter : s.outer? place = outer := by rw [outer?, hscope]; rfl
    cases outer with
    | none => exact .last hplace houter
    | some outer =>
      have hlt := hearlier place outer houter
      have hcount := Nat.lt_of_lt_of_le hlt (Nat.le_of_lt_succ hcount)
      exact .link houter (ih hcount (Nat.lt_trans hlt hplace))

/-- Where every scope is younger than the one around it, every search goes on
until a scope without a scope around it. -/
theorem chain_path (hearlier : ∀ i j, s.outer? i = some j → j < i) {place : ScopeId}
    (hplace : place < s.scopes.size) : s.Chain place (s.path place) :=
  chain_pathWithin hearlier s.scopes.size hplace hplace

/-- The last scope of a chain, when only one of the scopes that come into
question has no scope around it. -/
theorem Chain.getLast?_eq {P : ScopeId → Prop} {place last : ScopeId} {places : List ScopeId}
    (h : s.Chain place places) (hplace : P place) (hP : ∀ i j, s.outer? i = some j → P i → P j)
    (hlast : ∀ i, i < s.scopes.size → s.outer? i = none → P i → i = last) :
    places.getLast? = some last := by
  induction h with
  | last hexists houter => rw [List.getLast?_singleton, hlast _ hexists houter hplace]
  | link houter hplaces ih =>
    have hrest := ih (hP _ _ houter hplace)
    rw [List.getLast?_cons, hrest]
    rfl

/-- There is only one way out of a scope. -/
theorem Chain.unique {place : ScopeId} {places places' : List ScopeId} (h : s.Chain place places)
    (h' : s.Chain place places') : places = places' := by
  induction h generalizing places' with
  | last _ houter =>
    cases h' with
    | last => rfl
    | link houter' => cases houter.symm.trans houter'
  | link houter _ ih =>
    cases h' with
    | last _ houter' => cases houter.symm.trans houter'
    | link houter' hplaces' =>
      cases houter.symm.trans houter'
      rw [ih hplaces']

/-- A way out ends in a scope that lies inside no other. -/
theorem Chain.outermost {place : ScopeId} {places : List ScopeId} (h : s.Chain place places) :
    ∃ last, places.getLast? = some last ∧ s.outer? last = none := by
  induction h with
  | @last place _ houter => exact ⟨place, rfl, houter⟩
  | link _ _ ih =>
    obtain ⟨last, hlast, houter⟩ := ih
    exact ⟨last, by rw [List.getLast?_cons, hlast]; rfl, houter⟩

/-- The outermost scope of a way out lies inside no other. -/
theorem outer?_rootOf (hearlier : ∀ i j, s.outer? i = some j → j < i) {place : ScopeId}
    (hplace : place < s.scopes.size) : s.outer? (s.rootOf place) = none := by
  obtain ⟨last, hlast, houter⟩ := (chain_path hearlier hplace).outermost
  rw [rootOf, List.getLastD_eq_getLast?, hlast]
  exact houter

/-- The way out of a scope that lies inside no other. -/
theorem path_of_outermost {i : ScopeId} {scope : Scope} (h : s.scopes[i]? = some scope)
    (houter : scope.outer = none) : s.path i = [i] := by
  obtain ⟨outer, bindings⟩ := scope
  obtain rfl : outer = none := houter
  obtain ⟨hlt, -⟩ := Array.getElem?_eq_some_iff.1 h
  obtain ⟨size, hsize⟩ := Nat.exists_eq_add_of_le' (Nat.zero_lt_of_lt hlt)
  rw [path, hsize, pathWithin, h]

theorem lookup?_of_outermost {i : ScopeId} {scope : Scope} (h : s.scopes[i]? = some scope)
    (houter : scope.outer = none) {name : String} {v : Value} (hv : scope.local? name = some v) :
    s.lookup? i name = some v := by
  simp [lookup?, path_of_outermost h houter, local?, h, hv]

theorem owner?_of_outermost {i : ScopeId} {scope : Scope} (h : s.scopes[i]? = some scope)
    (houter : scope.outer = none) {name : String} {v : Value} (hv : scope.local? name = some v) :
    s.owner? i name = some i := by
  simp [owner?, path_of_outermost h houter, local?, h, hv]

theorem contains_of_local? {place : ScopeId} {name : String} {v : Value}
    (h : s.local? place name = some v) : s.Contains place v := by
  obtain ⟨scope, hscope, hv⟩ := Option.bind_eq_some_iff.1 h
  obtain ⟨l, l', heq, -⟩ := List.lookup_eq_some_iff.1 hv
  exact ⟨scope, hscope, name, by rw [heq]; simp⟩

/-- The nearest scope that binds a name is the one whose value is found. -/
theorem lookup?_eq_bind_owner? (scope : ScopeId) (name : String) :
    s.lookup? scope name = (s.owner? scope name).bind (s.local? · name) := by
  rw [lookup?, owner?]
  induction s.path scope with
  | nil => rfl
  | cons place places ih =>
    rw [List.findSome?_cons, List.find?_cons, ih]
    cases hplace : s.local? place name with
    | none => rfl
    | some v => exact hplace.symm

theorem isSome_local?_of_owner? {scope owner : ScopeId} {name : String}
    (h : s.owner? scope name = some owner) :
    (s.local? owner name).isSome :=
  List.find?_some (p := fun place => (s.local? place name).isSome) h

theorem lt_of_owner? {scope owner : ScopeId} {name : String}
    (h : s.owner? scope name = some owner) : scope < s.scopes.size := by
  rcases Nat.lt_or_ge scope s.scopes.size with hlt | hge
  · exact hlt
  · have hpath : s.path scope = [] := by
      unfold path
      cases s.scopes.size with
      | zero => rfl
      | succ size => rw [pathWithin, Array.getElem?_eq_none hge]
    rw [owner?, hpath] at h
    cases h

end Store

/-! ## Bindings, old and new -/

theorem mem_bindName {name : String} {v : Value} {bindings : List (String × Value)}
    {binding : String × Value} (h : binding ∈ bindName name v bindings) :
    binding ∈ bindings ∨ binding.2 = v := by
  induction bindings with
  | nil =>
    rcases List.mem_singleton.1 h with rfl
    exact .inr rfl
  | cons first rest ih =>
    obtain ⟨other, old⟩ := first
    unfold bindName at h
    split at h
    · rcases List.mem_cons.1 h with rfl | h
      · exact .inr rfl
      · exact .inl (List.mem_cons_of_mem _ h)
    · rcases List.mem_cons.1 h with rfl | h
      · exact .inl List.mem_cons_self
      · rcases ih h with h | h
        · exact .inl (List.mem_cons_of_mem _ h)
        · exact .inr h

namespace Scope

@[simp] theorem outer_bindAll (frame : Scope) (row : List (String × Value)) :
    (frame.bindAll row).outer = frame.outer := by
  induction row generalizing frame with
  | nil => rfl
  | cons binding row ih => exact ih _

theorem mem_bindAll {frame : Scope} {row : List (String × Value)} {binding : String × Value}
    (h : binding ∈ (frame.bindAll row).bindings) :
    binding ∈ frame.bindings ∨ ∃ given ∈ row, binding.2 = given.2 := by
  induction row generalizing frame with
  | nil => exact .inl h
  | cons first row ih =>
    have h : binding ∈ ((frame.bind first.1 first.2).bindAll row).bindings := h
    rcases ih h with h | ⟨given, hgiven, h⟩
    · rcases mem_bindName h with h | h
      · exact .inl h
      · exact .inr ⟨first, List.mem_cons_self, h⟩
    · exact .inr ⟨given, List.mem_cons_of_mem _ hgiven, h⟩

end Scope

/-! ## Changes -/

namespace Store

variable {s t : Store} {place : ScopeId}

/-- No scope is lost, and the scope around each stays the same. -/
structure Grows (s t : Store) : Prop where
  size : s.scopes.size ≤ t.scopes.size
  outer : ∀ i, i < s.scopes.size → t.outer? i = s.outer? i

theorem grows_refl (s : Store) : s.Grows s :=
  ⟨Nat.le_refl _, fun _ _ => rfl⟩

theorem Grows.trans {u : Store} (h : s.Grows t) (h' : t.Grows u) : s.Grows u := by
  refine ⟨Nat.le_trans h.size h'.size, ?_⟩
  intro i hi
  rw [h'.outer i (Nat.lt_of_lt_of_le hi h.size), h.outer i hi]

theorem outer?_eq_none (h : s.scopes.size ≤ place) : s.outer? place = none := by
  rw [outer?, Array.getElem?_eq_none h]
  rfl

theorem lt_of_outer? {outer : ScopeId} (h : s.outer? place = some outer) :
    place < s.scopes.size := by
  rcases Nat.lt_or_ge place s.scopes.size with hplace | hplace
  · exact hplace
  · rw [outer?_eq_none hplace] at h
    cases h

theorem Contains.lt {v : Value} (h : s.Contains place v) : place < s.scopes.size := by
  obtain ⟨scope, hscope, -⟩ := h
  exact (Array.getElem?_eq_some_iff.1 hscope).1

/-- There is no link from a scope that does not exist. -/
theorem not_link_size {held : ScopeId} : ¬ s.Link s.scopes.size held := by
  intro h
  cases h with
  | outer houter => exact absurd (lt_of_outer? houter) (Nat.lt_irrefl _)
  | value hv => exact absurd hv.lt (Nat.lt_irrefl _)

theorem getElem?_bind_of_ne {changed : ScopeId} (name : String) (v : Value) (h : place ≠ changed) :
    (s.bind changed name v).scopes[place]? = s.scopes[place]? := by
  rw [bind, Array.getElem?_modify, if_neg (Ne.symm h)]

theorem getElem?_bind_self (name : String) (v : Value) :
    (s.bind place name v).scopes[place]? = s.scopes[place]?.map (·.bind name v) := by
  rw [bind, Array.getElem?_modify, if_pos rfl]

@[simp] theorem outer?_bind (changed : ScopeId) (name : String) (v : Value) :
    (s.bind changed name v).outer? place = s.outer? place := by
  unfold outer?
  by_cases h : place = changed
  · subst h
    rw [getElem?_bind_self]
    cases s.scopes[place]? with
    | none => rfl
    | some scope => rfl
  · rw [getElem?_bind_of_ne name v h]

theorem grows_bind (changed : ScopeId) (name : String) (v : Value) :
    s.Grows (s.bind changed name v) :=
  ⟨Nat.le_of_eq (size_scopes_bind s changed name v).symm, fun _ _ => outer?_bind changed name v⟩

theorem contains_of_contains_bind {changed : ScopeId} {name : String} {v w : Value}
    (h : (s.bind changed name v).Contains place w) :
    s.Contains place w ∨ place = changed ∧ w = v := by
  obtain ⟨scope, hscope, bound, hbinding⟩ := h
  by_cases hplace : place = changed
  · subst hplace
    rw [getElem?_bind_self] at hscope
    obtain ⟨old, hold, rfl⟩ := Option.map_eq_some_iff.1 hscope
    rcases mem_bindName hbinding with hbinding | hbinding
    · exact .inl ⟨old, hold, bound, hbinding⟩
    · exact .inr ⟨rfl, hbinding⟩
  · rw [getElem?_bind_of_ne name v hplace] at hscope
    exact .inl ⟨scope, hscope, bound, hbinding⟩

/-- A binding adds links from its scope to what its value holds, and no others. -/
theorem link_of_link_bind {changed held : ScopeId} {name : String} {v : Value}
    (h : (s.bind changed name v).Link place held) :
    s.Link place held ∨ place = changed ∧ held ∈ v.mentions s.root := by
  cases h with
  | outer houter =>
    rw [outer?_bind] at houter
    exact .inl (.outer houter)
  | value hv hheld =>
    rcases contains_of_contains_bind hv with hv | ⟨hplace, rfl⟩
    · exact .inl (.value hv hheld)
    · exact .inr ⟨hplace, hheld⟩

theorem getElem?_addScope_of_ne (new : Scope) (h : place ≠ s.scopes.size) :
    (s.addScope new).2.scopes[place]? = s.scopes[place]? := by
  rw [addScope, Array.getElem?_push, if_neg h]

theorem getElem?_addScope_self (new : Scope) :
    (s.addScope new).2.scopes[s.scopes.size]? = some new := by
  rw [addScope, Array.getElem?_push, if_pos rfl]

theorem outer?_addScope_of_ne (new : Scope) (h : place ≠ s.scopes.size) :
    (s.addScope new).2.outer? place = s.outer? place := by
  rw [outer?, getElem?_addScope_of_ne new h]
  rfl

theorem outer?_addScope_self (new : Scope) :
    (s.addScope new).2.outer? s.scopes.size = new.outer := by
  rw [outer?, getElem?_addScope_self]
  rfl

@[simp] theorem size_addScope (new : Scope) :
    (s.addScope new).2.scopes.size = s.scopes.size + 1 :=
  Array.size_push _

theorem grows_addScope (new : Scope) : s.Grows (s.addScope new).2 := by
  refine ⟨by rw [size_addScope]; exact Nat.le_succ _, ?_⟩
  intro i hi
  exact outer?_addScope_of_ne new (Nat.ne_of_lt hi)

theorem contains_of_contains_addScope {new : Scope} {v : Value}
    (h : (s.addScope new).2.Contains place v) :
    s.Contains place v ∨ place = s.scopes.size ∧ ∃ binding ∈ new.bindings, v = binding.2 := by
  obtain ⟨scope, hscope, bound, hbinding⟩ := h
  by_cases hplace : place = s.scopes.size
  · subst hplace
    rw [getElem?_addScope_self] at hscope
    cases hscope
    exact .inr ⟨rfl, (bound, v), hbinding, rfl⟩
  · rw [getElem?_addScope_of_ne new hplace] at hscope
    exact .inl ⟨scope, hscope, bound, hbinding⟩

/-- A new scope has the links of its own parts, and no other scope has more. -/
theorem link_of_link_addScope {new : Scope} {held : ScopeId}
    (h : (s.addScope new).2.Link place held) :
    s.Link place held ∨ place = s.scopes.size ∧
      (new.outer = some held ∨ ∃ binding ∈ new.bindings, held ∈ binding.2.mentions s.root) := by
  cases h with
  | outer houter =>
    by_cases hplace : place = s.scopes.size
    · subst hplace
      rw [outer?_addScope_self] at houter
      exact .inr ⟨rfl, .inl houter⟩
    · rw [outer?_addScope_of_ne new hplace] at houter
      exact .inl (.outer houter)
  | value hv hheld =>
    rcases contains_of_contains_addScope hv with hv | ⟨hplace, binding, hbinding, rfl⟩
    · exact .inl (.value hv hheld)
    · exact .inr ⟨hplace, .inr ⟨binding, hbinding, hheld⟩⟩

/-- Links depend on the scopes and the root alone. -/
theorem link_of_same {held : ScopeId} (hscopes : t.scopes = s.scopes) (hroot : t.root = s.root)
    (h : t.Link place held) : s.Link place held := by
  cases h with
  | outer houter =>
    rw [outer?, hscopes] at houter
    exact .outer houter
  | value hv hheld =>
    obtain ⟨scope, hscope, hbinding⟩ := hv
    rw [hscopes] at hscope
    rw [hroot] at hheld
    exact .value ⟨scope, hscope, hbinding⟩ hheld

theorem grows_of_same (hscopes : t.scopes = s.scopes) : s.Grows t := by
  refine ⟨Nat.le_of_eq (by rw [hscopes]), ?_⟩
  intro i _
  rw [outer?, hscopes]
  rfl

/-! ## What stays the same -/

theorem lt_of_isSome_local? {name : String} (h : (s.local? place name).isSome) :
    place < s.scopes.size := by
  obtain ⟨v, hv⟩ := Option.isSome_iff_exists.1 h
  exact (contains_of_local? hv).lt

theorem local?_bind_of_ne {changed : ScopeId} {name other : String} (v : Value)
    (h : ¬ (changed = place ∧ other = name)) :
    (s.bind changed other v).local? place name = s.local? place name := by
  by_cases hplace : place = changed
  · subst hplace
    have hname : name ≠ other := fun hname => h ⟨rfl, hname.symm⟩
    rw [local?, getElem?_bind_self, local?]
    cases s.scopes[place]? with
    | none => rfl
    | some scope => simp [hname]
  · rw [local?, getElem?_bind_of_ne other v hplace, local?]

theorem local?_addScope_of_lt (new : Scope) {name : String} (h : place < s.scopes.size) :
    (s.addScope new).2.local? place name = s.local? place name := by
  rw [local?, getElem?_addScope_of_ne new (Nat.ne_of_lt h), local?]

theorem Chain.of_grows {places : List ScopeId} (hgrows : s.Grows t) (h : s.Chain place places) :
    t.Chain place places := by
  induction h with
  | last hplace houter =>
    refine .last (Nat.lt_of_lt_of_le hplace hgrows.size) ?_
    rw [hgrows.outer _ hplace, houter]
  | link houter _ ih =>
    refine .link ?_ ih
    rw [hgrows.outer _ (lt_of_outer? houter), houter]

theorem path_of_grows (hgrows : s.Grows t) (hearlier : ∀ i j, s.outer? i = some j → j < i)
    (hearlier' : ∀ i j, t.outer? i = some j → j < i) (hplace : place < s.scopes.size) :
    t.path place = s.path place := by
  have hchain : t.Chain place (s.path place) := (chain_path hearlier hplace).of_grows hgrows
  exact (chain_path hearlier' (Nat.lt_of_lt_of_le hplace hgrows.size)).unique hchain

theorem rootOf_of_grows (hgrows : s.Grows t) (hearlier : ∀ i j, s.outer? i = some j → j < i)
    (hearlier' : ∀ i j, t.outer? i = some j → j < i) (hplace : place < s.scopes.size) :
    t.rootOf place = s.rootOf place := by
  rw [rootOf, path_of_grows hgrows hearlier hearlier' hplace, rootOf]

end Store

end TinyLisp
