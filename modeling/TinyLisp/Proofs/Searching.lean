import Mathlib.Data.Fintype.EquivFin
import Mathlib.Data.List.Perm.Subperm
import TinyLisp.Machine
import TinyLisp.Proofs.Scopes

/-!
# Searching for names

Names are searched from a scope outwards.  Whether a name is bound, which scope binds
it, what its value is and where a new value goes are questions about one and the same
search, and a new value is seen from just the scopes whose search comes to it.

There are five groups.

* `Store.Acyclic`: stores in which no way outwards runs in a circle.  There
  `Store.path` is the whole way out.
* `Store.Search`: how far a search comes, scope by scope.
* The operations that search, each by what the search comes to.
* `Store.Sets`: a store with one binding changed.
* `Store.searches_agree`: all operations on one name, from any scope.
-/

namespace TinyLisp

/-- A name that is bound keeps its place, and so do the names around it. -/
theorem map_bindName {name : String} (v : Value) {bindings : List (String × Value)}
    (h : (bindings.lookup name).isSome) :
    (bindName name v bindings).map (·.1) = bindings.map (·.1) := by
  induction bindings with
  | nil => cases h
  | cons binding rest ih =>
    obtain ⟨bound, old⟩ := binding
    by_cases hbound : bound = name
    · simp [bindName, hbound]
    · have hother : (name == bound) = false := by simpa using Ne.symm hbound
      rw [List.lookup_cons, hother] at h
      simp [bindName, hbound, ih h]

namespace Store

variable {s t : Store} {place target owner : ScopeId} {name other : String}

/-! ## Ways outwards -/

/-- The scope around each scope exists, and no way outwards comes back to where it began. -/
structure Acyclic (s : Store) : Prop where
  outer_lt : ∀ i j, s.outer? i = some j → j < s.scopes.size
  not_circle : ∀ i, ¬ Relation.TransGen (fun i j => s.outer? i = some j) i i

/-- Ways outwards run in no circle when they go down in some order. -/
theorem acyclic_of_rank (houter : ∀ i j, s.outer? i = some j → j < s.scopes.size)
    (rank : ScopeId → Nat) (hrank : ∀ i j, s.outer? i = some j → rank j < rank i) :
    s.Acyclic := by
  refine ⟨houter, fun i hi => ?_⟩
  have hdown : ∀ j, Relation.TransGen (fun i j => s.outer? i = some j) i j → rank j < rank i := by
    intro j hj
    induction hj with
    | single hlink => exact hrank _ _ hlink
    | tail _ hlink ih => exact Nat.lt_trans (hrank _ _ hlink) ih
  exact Nat.lt_irrefl _ (hdown i hi)

/-- The same scopes around each other. -/
theorem Acyclic.of_outer (h : s.Acyclic) (hsize : t.scopes.size = s.scopes.size)
    (houter : ∀ i, t.outer? i = s.outer? i) : t.Acyclic := by
  refine ⟨?_, ?_⟩
  · intro i j hlink
    rw [houter] at hlink
    rw [hsize]
    exact h.outer_lt i j hlink
  · simp only [houter]
    exact h.not_circle

/-- Every scope has a way out. -/
theorem Acyclic.exists_chain (h : s.Acyclic) (hplace : place < s.scopes.size) :
    ∃ places, s.Chain place places := by
  let inside (j i : Fin s.scopes.size) : Prop :=
    Relation.TransGen (fun i j => s.outer? i = some j) i.1 j.1
  have htrans : IsTrans _ inside := ⟨fun _ _ _ hij hjk => hjk.trans hij⟩
  have hirrefl : Std.Irrefl inside := ⟨fun i => h.not_circle i⟩
  have hwf : WellFounded inside := Finite.wellFounded_of_trans_of_irrefl inside
  suffices hall : ∀ i : Fin s.scopes.size, ∃ places, s.Chain i places from hall ⟨place, hplace⟩
  intro i
  -- from the outside inwards
  induction i using hwf.induction with
  | _ i ih =>
    cases houter : s.outer? i with
    | none => exact ⟨_, .last i.2 houter⟩
    | some outer =>
      obtain ⟨places, hplaces⟩ := ih ⟨outer, h.outer_lt i outer houter⟩ (.single houter)
      exact ⟨_, .link houter hplaces⟩

theorem Chain.reaches {places : List ScopeId} (h : s.Chain place places) :
    ∀ i ∈ places, Relation.ReflTransGen (fun i j => s.outer? i = some j) place i := by
  induction h with
  | last => exact List.forall_mem_singleton.2 .refl
  | link houter _ ih => exact List.forall_mem_cons.2 ⟨.refl, fun i hi => .head houter (ih i hi)⟩

theorem Chain.lt_size {places : List ScopeId} (h : s.Chain place places) :
    ∀ i ∈ places, i < s.scopes.size := by
  induction h with
  | last hplace => exact List.forall_mem_singleton.2 hplace
  | link houter _ ih => exact List.forall_mem_cons.2 ⟨lt_of_outer? houter, ih⟩

/-- No scope is passed twice. -/
theorem Acyclic.nodup_of_chain (h : s.Acyclic) {places : List ScopeId}
    (hchain : s.Chain place places) : places.Nodup := by
  induction hchain with
  | last => exact List.nodup_singleton _
  | link houter hrest ih =>
    refine List.nodup_cons.2 ⟨fun hmem => ?_, ih⟩
    exact h.not_circle _ (.head' houter (hrest.reaches _ hmem))

/-- A path with room for a whole way out is this way. -/
theorem Chain.pathWithin_eq {places : List ScopeId} (h : s.Chain place places) {count : Nat}
    (hcount : places.length ≤ count) : s.pathWithin count place = places := by
  induction h generalizing count with
  | @last place hplace houter =>
    obtain ⟨count, rfl⟩ := Nat.exists_eq_add_of_le' hcount
    obtain ⟨⟨_, bindings⟩, hscope⟩ : ∃ scope, s.scopes[place]? = some scope :=
      ⟨_, Array.getElem?_eq_getElem hplace⟩
    rw [outer?, hscope] at houter
    obtain rfl : _ = none := houter
    simp [pathWithin, hscope]
  | @link place outer places houter _ ih =>
    rw [List.length_cons] at hcount
    obtain ⟨count, rfl⟩ := Nat.exists_eq_add_of_le' (Nat.le_trans (Nat.le_add_left 1 _) hcount)
    obtain ⟨⟨_, bindings⟩, hscope, houter⟩ := Option.bind_eq_some_iff.1 houter
    obtain rfl : _ = some outer := houter
    rw [pathWithin, hscope]
    exact congrArg (place :: ·) (ih (Nat.le_of_succ_le_succ hcount))

/-- A path is the whole way out: no circle uses up its room. -/
theorem Acyclic.chain_path (h : s.Acyclic) (hplace : place < s.scopes.size) :
    s.Chain place (s.path place) := by
  obtain ⟨places, hchain⟩ := h.exists_chain hplace
  have hsubset : places ⊆ List.range s.scopes.size :=
    fun i hi => List.mem_range.2 (hchain.lt_size i hi)
  have hlength := (List.subperm_of_subset (h.nodup_of_chain hchain) hsubset).length_le
  rw [List.length_range] at hlength
  rw [path, hchain.pathWithin_eq hlength]
  exact hchain

theorem path_eq_nil (h : s.scopes.size ≤ place) : s.path place = [] := by
  rw [path]
  cases hsize : s.scopes.size with
  | zero => rfl
  | succ size => rw [pathWithin, Array.getElem?_eq_none h]

/-! ## Searches -/

/-- A search for `name` that begins in one scope comes to another one: no scope in front
of it binds the name. -/
inductive Search (s : Store) (name : String) : ScopeId → ScopeId → Prop where
  | here (place : ScopeId) : Search s name place place
  | outward {place outer target : ScopeId} (hfree : s.local? place name = none)
      (houter : s.outer? place = some outer) (hrest : Search s name outer target) :
      Search s name place target

/-- A search is the same in a store in which the scopes it comes to are the same. -/
theorem Search.of_same (houter : ∀ i, t.outer? i = s.outer? i) (h : s.Search name place target)
    (hsame : ∀ i, s.Search name place i → t.local? i name = s.local? i name) :
    t.Search name place target := by
  induction h with
  | here => exact .here _
  | @outward place outer target hfree hlink _ ih =>
    have hrest := ih fun i hi => hsame i (.outward hfree hlink hi)
    refine .outward ?_ ((houter place).trans hlink) hrest
    rw [hsame place (.here place), hfree]

/-- What a way out finds first is the first scope with the name that the search comes to. -/
theorem Chain.find?_eq_some_iff {places : List ScopeId} (h : s.Chain place places) :
    places.find? (fun i => (s.local? i name).isSome) = some owner ↔
      s.Search name place owner ∧ (s.local? owner name).isSome := by
  induction h with
  | @last place _ houter =>
    rw [List.find?_singleton]
    constructor
    · intro h
      obtain ⟨hbound, heq⟩ := Option.ite_none_right_eq_some.1 h
      obtain rfl := Option.some.inj heq
      exact ⟨.here _, hbound⟩
    · intro ⟨hsearch, hbound⟩
      cases hsearch with
      | here => rw [if_pos hbound]
      | outward _ houter' => cases houter.symm.trans houter'
  | @link place outer places houter _ ih =>
    cases hplace : s.local? place name with
    | some v =>
      have hbound : (s.local? place name).isSome := by rw [hplace]; rfl
      rw [List.find?_cons, hbound]
      constructor
      · intro heq
        obtain rfl := Option.some.inj heq
        exact ⟨.here _, hbound⟩
      · intro ⟨hsearch, _⟩
        cases hsearch with
        | here => rfl
        | outward hfree => cases hplace.symm.trans hfree
    | none =>
      rw [List.find?_cons_of_neg (by simp [hplace]), ih]
      constructor
      · intro ⟨hsearch, hbound⟩
        exact ⟨.outward hplace houter hsearch, hbound⟩
      · intro ⟨hsearch, hbound⟩
        cases hsearch with
        | here =>
          rw [hplace] at hbound
          cases hbound
        | outward _ houter' hrest =>
          cases houter.symm.trans houter'
          exact ⟨hrest, hbound⟩

/-! ## Operations that search -/

/-- The owner of a name is the scope with the name that the search comes to. -/
theorem Acyclic.owner?_eq_some_iff (h : s.Acyclic) :
    s.owner? place name = some owner ↔
      s.Search name place owner ∧ (s.local? owner name).isSome := by
  rcases Nat.lt_or_ge place s.scopes.size with hplace | hplace
  · exact (h.chain_path hplace).find?_eq_some_iff
  · rw [owner?, path_eq_nil hplace]
    refine iff_of_false (fun heq => by cases heq) ?_
    intro hfound
    obtain ⟨hsearch, hbound⟩ := hfound
    cases hsearch with
    | here => exact Nat.not_lt_of_le hplace (lt_of_isSome_local? hbound)
    | outward _ houter => exact Nat.not_lt_of_le hplace (lt_of_outer? houter)

/-- A name without an owner is bound in no scope that the search comes to. -/
theorem Acyclic.owner?_eq_none_iff (h : s.Acyclic) :
    s.owner? place name = none ↔ ∀ i, s.Search name place i → s.local? i name = none := by
  constructor
  · intro hnone i hi
    rw [← Option.not_isSome_iff_eq_none]
    intro hbound
    cases hnone.symm.trans (h.owner?_eq_some_iff.2 ⟨hi, hbound⟩)
  · intro hfree
    cases howner : s.owner? place name with
    | none => rfl
    | some owner =>
      obtain ⟨hsearch, hbound⟩ := h.owner?_eq_some_iff.1 howner
      rw [hfree owner hsearch] at hbound
      cases hbound

theorem binds_eq_isSome_owner? : s.binds place name = (s.owner? place name).isSome := by
  rw [binds, owner?, List.isSome_find?]

theorem Acyclic.lookup?_eq_some_iff (h : s.Acyclic) {v : Value} :
    s.lookup? place name = some v ↔
      ∃ owner, s.Search name place owner ∧ s.local? owner name = some v := by
  rw [lookup?_eq_bind_owner?, Option.bind_eq_some_iff]
  refine exists_congr fun owner => ?_
  rw [h.owner?_eq_some_iff]
  constructor
  · exact fun ⟨⟨hsearch, _⟩, hv⟩ => ⟨hsearch, hv⟩
  · exact fun ⟨hsearch, hv⟩ => ⟨⟨hsearch, by rw [hv]; rfl⟩, hv⟩

/-- What is found depends on the scopes that the search comes to. -/
theorem Acyclic.lookup?_of_same (h : s.Acyclic) (ht : t.Acyclic)
    (houter : ∀ i, t.outer? i = s.outer? i)
    (hsame : ∀ i, s.Search name place i → t.local? i name = s.local? i name) :
    t.lookup? place name = s.lookup? place name := by
  have hsearch : ∀ i, t.Search name place i ↔ s.Search name place i := by
    intro i
    refine ⟨fun hi => ?_, fun hi => hi.of_same houter hsame⟩
    induction hi with
    | here => exact .here _
    | @outward place outer target hfree hlink _ ih =>
      rw [hsame place (.here place)] at hfree
      rw [houter] at hlink
      exact .outward hfree hlink (ih fun i hi => hsame i (.outward hfree hlink hi))
  apply Option.ext
  intro v
  rw [h.lookup?_eq_some_iff, ht.lookup?_eq_some_iff]
  refine exists_congr fun owner => ?_
  rw [hsearch owner]
  exact and_congr_right fun hi => by rw [hsame owner hi]

/-! ## Changing one binding -/

/-- `t` is `s` with `name` bound to `v` in one scope.  No other binding is different, and
the value is found from just the scopes whose search for the name comes there. -/
structure Sets (s t : Store) (place : ScopeId) (name : String) (v : Value) : Prop where
  rest : t = { s with scopes := t.scopes }
  size : t.scopes.size = s.scopes.size
  outer : ∀ i, t.outer? i = s.outer? i
  bindings : ∀ i other,
    t.local? i other = if i = place ∧ other = name then some v else s.local? i other
  seen : ∀ i, s.Search name i place → t.lookup? i name = some v
  unseen : ∀ i other, ¬ (other = name ∧ s.Search name i place) →
    t.lookup? i other = s.lookup? i other

/-- A search that came to the scope still comes there, since it stops nowhere before. -/
theorem Search.bind {v : Value} (h : s.Search name place target) :
    (s.bind target name v).Search name place target := by
  induction h with
  | here => exact .here _
  | @outward place outer target hfree houter _ ih =>
    by_cases hplace : target = place
    · rw [hplace]
      exact .here _
    · refine .outward ?_ ((outer?_bind ..).trans houter) ih
      rw [local?_bind_of_ne v fun hsame => hplace hsame.1, hfree]

theorem Acyclic.sets_bind (h : s.Acyclic) (hplace : place < s.scopes.size) (v : Value) :
    s.Sets (s.bind place name v) place name v := by
  have ht : (s.bind place name v).Acyclic :=
    h.of_outer (size_scopes_bind ..) fun _ => outer?_bind ..
  refine ⟨rfl, size_scopes_bind .., fun _ => outer?_bind .., ?_, ?_, ?_⟩
  · exact fun i other => local?_bind s hplace i name other v
  · intro i hi
    refine ht.lookup?_eq_some_iff.2 ⟨place, hi.bind, ?_⟩
    rw [local?_bind s hplace, if_pos ⟨rfl, rfl⟩]
  · intro i other hunseen
    apply h.lookup?_of_same ht fun _ => outer?_bind ..
    intro k hk
    apply local?_bind_of_ne
    intro ⟨hsame, hname⟩
    subst hsame hname
    exact hunseen ⟨rfl, hk⟩

/-- A new value for a name that is bound leaves the names of every scope as they are. -/
theorem names_bind (hbound : (s.local? place name).isSome) (v : Value) (i : ScopeId) :
    (s.bind place name v).scopes[i]?.map Scope.names = s.scopes[i]?.map Scope.names := by
  by_cases hi : i = place
  · subst hi
    rw [getElem?_bind_self, Option.map_map]
    obtain ⟨old, hold⟩ := Option.isSome_iff_exists.1 hbound
    obtain ⟨scope, hscope, hlocal⟩ := Option.bind_eq_some_iff.1 hold
    rw [hscope]
    exact congrArg some (map_bindName v (by rw [← Scope.local?, hlocal]; rfl))
  · rw [getElem?_bind_of_ne name v hi]

/-! ## All operations on a name -/

/-- From every scope of a store without circles, all operations on a name succeed or all
fail.  They succeed with the nearest scope that binds the name: its value is what is found,
and a new value is given to this binding, to nothing else, and is found from just the
scopes whose search ends there too.  They fail as the name is unbound, and change nothing.
Binding the name in the scope itself changes what is found in the same way. -/
theorem searches_agree (h : s.Acyclic) {scope : ScopeId} (hscope : scope < s.scopes.size)
    (name : String) (v : Value) :
    ((∃ owner old, s.Search name scope owner ∧ s.local? owner name = some old ∧
        s.binds scope name = true ∧
        Run.lookup scope name s = .ok old s ∧
        Run.findOwner scope name s = .ok owner s ∧
        Run.assign scope name v s = .ok () (s.bind owner name v) ∧
        s.Sets (s.bind owner name v) owner name v ∧
        (∀ i, s.Search name i owner ↔ Run.findOwner i name s = .ok owner s) ∧
        ∀ i : ScopeId,
          (s.bind owner name v).scopes[i]?.map Scope.names = s.scopes[i]?.map Scope.names) ∨
      ((∀ i, s.Search name scope i → s.local? i name = none) ∧
        s.binds scope name = false ∧
        Run.lookup scope name s = .error (.error (.unbound name)) s ∧
        Run.findOwner scope name s = .error (.error (.unbound name)) s ∧
        Run.assign scope name v s = .error (.error (.unbound name)) s)) ∧
      Run.bind scope name v s = .ok () (s.bind scope name v) ∧
      s.Sets (s.bind scope name v) scope name v := by
  refine ⟨?_, rfl, h.sets_bind hscope v⟩
  cases howner : s.owner? scope name with
  | some owner =>
    obtain ⟨hsearch, hbound⟩ := h.owner?_eq_some_iff.1 howner
    obtain ⟨old, hold⟩ := Option.isSome_iff_exists.1 hbound
    have hlookup : s.lookup? scope name = some old := by
      rw [lookup?_eq_bind_owner?, howner]
      exact hold
    refine .inl ⟨owner, old, hsearch, hold, ?_, Run.lookup_of_some hlookup,
      Run.findOwner_of_some howner, Run.assign_of_some v howner,
      h.sets_bind (lt_of_isSome_local? hbound) v, ?_, names_bind hbound v⟩
    · rw [binds_eq_isSome_owner?, howner]
      rfl
    · intro i
      constructor
      · exact fun hi => Run.findOwner_of_some (h.owner?_eq_some_iff.2 ⟨hi, hbound⟩)
      · intro hfound
        cases hi : s.owner? i name with
        | some place =>
          cases (Run.findOwner_of_some hi).symm.trans hfound
          exact (h.owner?_eq_some_iff.1 hi).1
        | none => cases (Run.findOwner_of_none hi).symm.trans hfound
  | none =>
    have hlookup : s.lookup? scope name = none := by
      rw [lookup?_eq_bind_owner?, howner]
      rfl
    refine .inr ⟨h.owner?_eq_none_iff.1 howner, ?_, Run.lookup_of_none hlookup,
      Run.findOwner_of_none howner, Run.assign_of_none v howner⟩
    rw [binds_eq_isSome_owner?, howner]
    rfl

/-- Two scopes lie inside a third one that binds a name of the outermost scope anew.  An
assignment from one of them is seen from the other one, and not from the outermost scope. -/
theorem searches_agree_shared :
    let s : Store := ⟨#[⟨some 2, []⟩, ⟨some 2, []⟩, ⟨some 3, [("x", .string "near")]⟩,
      ⟨none, [("x", .string "far")]⟩], 3, 0, "", 0⟩
    s.Acyclic ∧ 0 < s.scopes.size ∧
      Run.lookup 0 "x" s = .ok (.string "near") s ∧
      ∃ t, Run.assign 0 "x" (.string "new") s = .ok () t ∧
        t.lookup? 1 "x" = some (.string "new") ∧ t.lookup? 3 "x" = some (.string "far") := by
  intro s
  have hacyclic : s.Acyclic := by
    refine acyclic_of_rank ?_ (fun i => if i < 2 then 2 else 3 - i) ?_
    · intro i j h
      match i, h with
      | 0, h | 1, h | 2, h =>
        cases h
        decide
      | 3, h | _ + 4, h => cases h
    · intro i j h
      match i, h with
      | 0, h | 1, h | 2, h =>
        cases h
        decide
      | 3, h | _ + 4, h => cases h
  have hinside : 0 < s.scopes.size := by decide
  refine ⟨hacyclic, hinside, ?_⟩
  obtain ⟨⟨owner, old, hsearch, hold, -, hlookup, -, hassign, hsets, -⟩ | ⟨hnone, -⟩, -⟩ :=
    searches_agree hacyclic hinside "x" (.string "new")
  · -- the owner is the scope around both
    cases hsearch with
    | here => cases hold
    | outward _ houter hrest =>
      cases houter
      cases hrest with
      | outward hfree => cases hfree
      | here =>
        cases hold
        refine ⟨hlookup, _, hassign, hsets.seen 1 (.outward rfl rfl (.here 2)), ?_⟩
        rw [hsets.unseen 3 "x"]
        · rfl
        · intro ⟨_, hseen⟩
          cases hseen with
          | outward hfree => cases hfree
  · cases hnone 2 (.outward rfl rfl (.here 2))

end Store

end TinyLisp
