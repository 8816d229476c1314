import TinyLisp.Proofs.Evaluation.Discipline

/-!
# Confinement

An evaluation that starts from some scopes gets at no others but those that are
created while it runs.

There are three groups.

* `Confinement`: the store at the start, and the scopes that may be used there.
  `Confinement.Allows` adds the scopes that are new since then.
* `Confinement.Keeps`: what is known of a store later on.  Scopes that may not
  be used are as they were at the start, and no scope that may be used leads to
  one that may not.
* `Confinement.discipline`: evaluation keeps to it.
-/

namespace TinyLisp

/-- A store and scopes in it that lead to no others. -/
structure Confinement where
  start : Store
  usable : ScopeId → Prop
  closed : ∀ i j, usable i → start.Link i j → usable j

namespace Confinement

variable (c : Confinement)

/-- Scopes that may be used at the start, and those that are new since then. -/
def Allows (s : Store) (i : ScopeId) : Prop :=
  c.usable i ∨ c.start.scopes.size ≤ i ∧ i < s.scopes.size

/-- All that a value holds may be used. -/
def AllowsValue (s : Store) (v : Value) : Prop :=
  ∀ i ∈ v.mentions c.start.root, c.Allows s i

/-- What a store keeps since the start. -/
structure Keeps (s : Store) : Prop where
  root : s.root = c.start.root
  grows : c.start.Grows s
  /-- Other scopes are as they were. -/
  untouched : ∀ i, i < c.start.scopes.size → ¬ c.usable i → s.scopes[i]? = c.start.scopes[i]?
  /-- A new scope lies inside an earlier one. -/
  inside : ∀ i, c.start.scopes.size ≤ i → i < s.scopes.size → ∃ j, s.outer? i = some j ∧
    (c.usable j ∨ c.start.scopes.size ≤ j ∧ j < i)
  closed : ∀ i j, c.Allows s i → s.Link i j → c.Allows s j

variable {c} {s t : Store}

theorem Allows.later {i : ScopeId} (h : c.Allows s i) (hgrows : s.Grows t) : c.Allows t i := by
  rcases h with h | ⟨hnew, hlt⟩
  · exact .inl h
  · exact .inr ⟨hnew, Nat.lt_of_lt_of_le hlt hgrows.size⟩

theorem AllowsValue.later {v : Value} (h : c.AllowsValue s v) (hgrows : s.Grows t) :
    c.AllowsValue t v :=
  fun i hi => (h i hi).later hgrows

theorem allowsValue_of_mentions_eq_nil {v : Value} (h : v.mentions c.start.root = []) :
    c.AllowsValue s v := by
  intro i hi
  rw [h] at hi
  cases hi

theorem allowsValue_form {items : List Value} :
    c.AllowsValue s (.form items) ↔ ∀ item ∈ items, c.AllowsValue s item := by
  unfold AllowsValue
  rw [Value.mentions]
  constructor
  · intro h item hitem i hi
    exact h i (Value.mem_mentionsOfAll.2 ⟨item, hitem, hi⟩)
  · intro h i hi
    obtain ⟨item, hitem, hi⟩ := Value.mem_mentionsOfAll.1 hi
    exact h item hitem i hi

theorem allowsValue_pair {cell : Identity} {head tail : Value} :
    c.AllowsValue s (.pair cell head tail) ↔ c.AllowsValue s head ∧ c.AllowsValue s tail :=
  List.forall_mem_append

theorem allowsValue_procedure {identity : Identity} {parameters : List String} {body : List Value}
    {scope : ScopeId} :
    c.AllowsValue s (.procedure identity parameters body scope) ↔
      (∀ form ∈ body, c.AllowsValue s form) ∧ c.Allows s scope := by
  constructor
  · intro h
    have hbody : c.AllowsValue s (.form body) := fun i hi => h i (List.mem_cons_of_mem _ hi)
    exact ⟨allowsValue_form.1 hbody, h scope List.mem_cons_self⟩
  · intro h i hi
    obtain ⟨hbody, hscope⟩ := h
    rcases List.mem_cons.1 hi with rfl | hi
    · exact hscope
    · exact allowsValue_form.2 hbody i hi

/-! ## What is allowed stays allowed -/

theorem allows_of_mem_path {scope i : ScopeId} (h : c.Keeps s) (hscope : c.Allows s scope)
    (hi : i ∈ s.path scope) : c.Allows s i :=
  Store.forall_mem_path (fun i j houter hi => h.closed i j hi (.outer houter)) hscope i hi

theorem allowsValue_of_local? {place : ScopeId} {name : String} {v : Value} (h : c.Keeps s)
    (hplace : c.Allows s place) (hv : s.local? place name = some v) : c.AllowsValue s v := by
  intro i hi
  rw [← h.root] at hi
  exact h.closed place i hplace (.value (Store.contains_of_local? hv) hi)

theorem allowsValue_of_lookup? {scope : ScopeId} {name : String} {v : Value} (h : c.Keeps s)
    (hscope : c.Allows s scope) (hv : s.lookup? scope name = some v) : c.AllowsValue s v := by
  obtain ⟨place, hplace, hv⟩ := List.exists_of_findSome?_eq_some hv
  exact allowsValue_of_local? h (allows_of_mem_path h hscope hplace) hv

theorem allows_of_owner? {scope place : ScopeId} {name : String} (h : c.Keeps s)
    (hscope : c.Allows s scope) (hplace : s.owner? scope name = some place) : c.Allows s place :=
  allows_of_mem_path h hscope (List.mem_of_find?_eq_some hplace)

theorem allows_rootOf {scope : ScopeId} (h : c.Keeps s) (hscope : c.Allows s scope) :
    c.Allows s (s.rootOf scope) := by
  unfold Store.rootOf
  rw [List.getLastD_eq_getLast?]
  cases hlast : (s.path scope).getLast? with
  | none => exact hscope
  | some i => exact allows_of_mem_path h hscope (List.mem_of_getLast? hlast)

/-- Scopes that may be used are all that a binding can change. -/
theorem Keeps.bind {scope : ScopeId} {v : Value} (name : String) (h : c.Keeps s)
    (hscope : c.Allows s scope) (hv : c.AllowsValue s v) : c.Keeps (s.bind scope name v) where
  root := h.root
  grows := h.grows.trans (Store.grows_bind scope name v)
  untouched := by
    intro i hi husable
    have hne : i ≠ scope := by
      intro heq
      subst heq
      rcases hscope with hscope | ⟨hnew, -⟩
      · exact husable hscope
      · exact Nat.not_lt_of_le hnew hi
    rw [Store.getElem?_bind_of_ne name v hne]
    exact h.untouched i hi husable
  inside := by
    intro i hnew hi
    rw [Store.size_scopes_bind] at hi
    obtain ⟨j, houter, hj⟩ := h.inside i hnew hi
    exact ⟨j, by rw [Store.outer?_bind, houter], hj⟩
  closed := by
    have hgrows := Store.grows_bind (s := s) scope name v
    have hback : ∀ i, c.Allows (s.bind scope name v) i → c.Allows s i := by
      intro i hi
      unfold Allows at hi
      rw [Store.size_scopes_bind] at hi
      exact hi
    intro i j hi hlink
    rcases Store.link_of_link_bind hlink with hlink | ⟨-, hheld⟩
    · exact (h.closed i j (hback i hi) hlink).later hgrows
    · rw [h.root] at hheld
      exact (hv j hheld).later hgrows

theorem Keeps.addScope {new : Scope} {outer : ScopeId} (h : c.Keeps s)
    (houter : new.outer = some outer) (hscope : c.Allows s outer)
    (hbindings : ∀ binding ∈ new.bindings, c.AllowsValue s binding.2) :
    c.Keeps (s.addScope new).2 where
  root := h.root
  grows := h.grows.trans (Store.grows_addScope new)
  untouched := by
    intro i hi husable
    have hne := Nat.ne_of_lt (Nat.lt_of_lt_of_le hi h.grows.size)
    rw [Store.getElem?_addScope_of_ne new hne]
    exact h.untouched i hi husable
  inside := by
    intro i hnew hi
    rw [Store.size_addScope] at hi
    rcases Nat.lt_or_eq_of_le (Nat.le_of_lt_succ hi) with hi | rfl
    · obtain ⟨j, hj, hallowed⟩ := h.inside i hnew hi
      refine ⟨j, ?_, hallowed⟩
      rw [Store.outer?_addScope_of_ne new (Nat.ne_of_lt hi), hj]
    · exact ⟨outer, by rw [Store.outer?_addScope_self, houter], hscope⟩
  closed := by
    have hgrows := Store.grows_addScope (s := s) new
    intro i j hi hlink
    rcases Store.link_of_link_addScope hlink with hold | ⟨-, hparts⟩
    · apply (h.closed i j _ hold).later hgrows
      rcases hi with hi | ⟨hnew, hlt⟩
      · exact .inl hi
      · rw [Store.size_addScope] at hlt
        rcases Nat.lt_or_eq_of_le (Nat.le_of_lt_succ hlt) with hlt | rfl
        · exact .inr ⟨hnew, hlt⟩
        · exact absurd hold Store.not_link_size
    · rcases hparts with hj | ⟨binding, hbinding, hj⟩
      · rw [houter] at hj
        cases hj
        exact hscope.later hgrows
      · rw [h.root] at hj
        exact (hbindings binding hbinding j hj).later hgrows

theorem allows_addScope {new : Scope} (h : c.Keeps s) :
    c.Allows (s.addScope new).2 (s.addScope new).1 := by
  refine .inr ⟨h.grows.size, ?_⟩
  rw [Store.size_addScope]
  exact Nat.lt_succ_self _

theorem Keeps.quiet (h : c.Keeps s) (hscopes : t.scopes = s.scopes) (hroot : t.root = s.root) :
    c.Keeps t where
  root := hroot.trans h.root
  grows := h.grows.trans (Store.grows_of_same hscopes)
  untouched := by
    intro i hi husable
    rw [hscopes]
    exact h.untouched i hi husable
  inside := by
    intro i hnew hi
    rw [hscopes] at hi
    obtain ⟨j, houter, hj⟩ := h.inside i hnew hi
    refine ⟨j, ?_, hj⟩
    rw [← houter, Store.outer?, hscopes]
    rfl
  closed := by
    intro i j hi hlink
    unfold Allows at hi ⊢
    rw [hscopes] at hi ⊢
    exact h.closed i j hi (Store.link_of_same hscopes hroot hlink)

/-- At the start everything is as it was. -/
theorem keeps_start : c.Keeps c.start where
  root := rfl
  grows := Store.grows_refl _
  untouched _ _ _ := rfl
  inside i hnew hi := absurd hi (Nat.not_lt_of_le hnew)
  closed i j hi hlink := by
    rcases hi with hi | ⟨hnew, hlt⟩
    · exact .inl (c.closed i j hi hlink)
    · exact absurd hlt (Nat.not_lt_of_le hnew)

/-! ## Evaluation is confined -/

/-- Using no other scopes than those that may be used, and handing out no values
that hold others. -/
def discipline (c : Confinement) : Discipline where
  store := c.Keeps
  later := Store.Grows
  scope := c.Allows
  value := c.AllowsValue
  later_refl := Store.grows_refl
  later_trans := Store.Grows.trans
  scope_later hgrows h := h.later hgrows
  value_later hgrows h := h.later hgrows
  value_plain {s v} h := by
    apply allowsValue_of_mentions_eq_nil
    cases v <;> first | rfl | cases h
  value_symbol _ := allowsValue_of_mentions_eq_nil rfl
  value_form := allowsValue_form
  value_embedded := Iff.rfl
  value_pair := allowsValue_pair
  value_procedure := allowsValue_procedure
  value_callback := Iff.rfl
  value_setGlobal h := h _ List.mem_cons_self
  value_host h hv hevaluates := by
    rw [h.root]
    exact hv _ (Value.mem_mentions_host.2 ⟨hevaluates, rfl⟩)
  value_read _ h :=
    allowsValue_of_mentions_eq_nil (Value.mentions_of_isSyntax (isSyntax_of_mem_readAll h))
  lookup := allowsValue_of_lookup?
  owner := allows_of_owner?
  rootOf := allows_rootOf
  bind name h hscope hv := ⟨h.bind name hscope hv, Store.grows_bind _ name _⟩
  addScope h houter hscope hbindings :=
    ⟨h.addScope houter hscope hbindings, Store.grows_addScope _, allows_addScope h⟩
  quiet h hscopes hroot := ⟨h.quiet hscopes hroot, Store.grows_of_same hscopes⟩

end Confinement

end TinyLisp
