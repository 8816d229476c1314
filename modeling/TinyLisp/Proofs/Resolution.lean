import Mathlib.Data.List.Basic
import TinyLisp.Proofs.Sessions

/-!
# Names stay bound

An evaluation takes no name away.  A name that could be found from some scope can be
found from there afterwards, perhaps in a nearer scope.  The scopes that were there
before get new names in two ways only: by a form that defines a name there, and by a
setter of global names, whose place is the outermost scope.

There are three groups.

* `Store.Retains`: no scope and no name is lost.  It is kept by whatever an evaluation
  does to a store.
* `Watch.additions`: looking for the two ways in which a name gets into a scope.  A
  machine that stops there gives the scope no such name.
* `Machine.eval_retains`: nothing is lost, and no name is added unnoticed.
-/

namespace TinyLisp

variable {hosts : Hosts}

namespace Store

variable {s t : Store} {place : ScopeId} {name : String}

/-! ## Names that stay bound -/

/-- No scope is lost, and no name that a scope binds. -/
structure Retains (s t : Store) : Prop extends s.Grows t where
  bound : ∀ place name, (s.local? place name).isSome → (t.local? place name).isSome

theorem retains_refl (s : Store) : s.Retains s :=
  ⟨grows_refl s, fun _ _ h => h⟩

theorem Retains.trans {u : Store} (h : s.Retains t) (h' : t.Retains u) : s.Retains u :=
  ⟨h.toGrows.trans h'.toGrows, fun place name hs => h'.bound place name (h.bound place name hs)⟩

theorem retains_bind (changed : ScopeId) (other : String) (v : Value) :
    s.Retains (s.bind changed other v) := by
  refine ⟨grows_bind changed other v, ?_⟩
  intro place name h
  by_cases hsame : changed = place ∧ other = name
  · obtain ⟨rfl, rfl⟩ := hsame
    rw [local?_bind s (lt_of_isSome_local? h), if_pos ⟨rfl, rfl⟩]
    rfl
  · rw [local?_bind_of_ne v hsame]
    exact h

theorem retains_addScope (new : Scope) : s.Retains (s.addScope new).2 := by
  refine ⟨grows_addScope new, ?_⟩
  intro place name h
  rw [local?_addScope_of_lt new (lt_of_isSome_local? h)]
  exact h

theorem retains_of_same (hscopes : t.scopes = s.scopes) : s.Retains t := by
  refine ⟨grows_of_same hscopes, ?_⟩
  intro place name h
  rw [local?, hscopes]
  exact h

/-- A weaker test is met no later in a row. -/
theorem exists_find?_of_imp {p q : ScopeId → Bool} (hpq : ∀ i, p i → q i)
    {places : List ScopeId} {owner : ScopeId} (h : places.find? p = some owner) :
    ∃ nearer, places.find? q = some nearer ∧ places.idxOf nearer ≤ places.idxOf owner := by
  induction places with
  | nil => cases h
  | cons first rest ih =>
    by_cases hq : q first
    · refine ⟨first, List.find?_cons_of_pos hq, ?_⟩
      rw [List.idxOf_cons_self]
      exact Nat.zero_le _
    · have hp : ¬ p first := fun hp => hq (hpq first hp)
      rw [List.find?_cons_of_neg hp] at h
      obtain ⟨nearer, hnearer, hle⟩ := ih h
      refine ⟨nearer, by rw [List.find?_cons_of_neg hq, hnearer], ?_⟩
      have howner : first ≠ owner := fun heq => hp (heq ▸ List.find?_some h)
      have hfirst : first ≠ nearer := fun heq => hq (heq ▸ List.find?_some hnearer)
      rw [List.idxOf_cons_ne _ howner, List.idxOf_cons_ne _ hfirst]
      exact Nat.succ_le_succ hle

/-- A name that can be found is found again, in the same scope or a nearer one. -/
theorem Retains.owner? {scope owner : ScopeId} (h : s.Retains t)
    (hpath : t.path scope = s.path scope) (howner : s.owner? scope name = some owner) :
    ∃ nearer, t.owner? scope name = some nearer ∧
      (s.path scope).idxOf nearer ≤ (s.path scope).idxOf owner := by
  rw [Store.owner?, hpath]
  exact exists_find?_of_imp (fun place => h.bound place name) howner

/-- A scope that exists and does not bind a name. -/
def Lacks (s : Store) (place : ScopeId) (name : String) : Prop :=
  place < s.scopes.size ∧ s.local? place name = none

theorem Lacks.bind {changed : ScopeId} {other : String} (v : Value) (h : s.Lacks place name)
    (hne : ¬ (changed = place ∧ other = name)) : (s.bind changed other v).Lacks place name := by
  refine ⟨?_, ?_⟩
  · rw [size_scopes_bind]
    exact h.1
  · rw [local?_bind_of_ne v hne]
    exact h.2

theorem Lacks.addScope (new : Scope) (h : s.Lacks place name) :
    (s.addScope new).2.Lacks place name := by
  refine ⟨?_, ?_⟩
  · rw [size_addScope]
    exact Nat.lt_succ_of_lt h.1
  · rw [local?_addScope_of_lt new h.1]
    exact h.2

end Store

/-- Whatever is evaluated, no scope and no name is lost. -/
def retention : Discipline where
  store _ := True
  later := Store.Retains
  scope _ _ := True
  value _ _ := True
  later_refl := Store.retains_refl
  later_trans := Store.Retains.trans
  scope_later _ _ := trivial
  value_later _ _ := trivial
  value_plain _ := trivial
  value_symbol _ := trivial
  value_form := ⟨fun _ _ _ => trivial, fun _ => trivial⟩
  value_embedded := Iff.rfl
  value_pair := ⟨fun _ => ⟨trivial, trivial⟩, fun _ => trivial⟩
  value_procedure := ⟨fun _ => ⟨fun _ _ => trivial, trivial⟩, fun _ => trivial⟩
  value_callback := Iff.rfl
  value_setGlobal _ := trivial
  value_host _ _ _ := trivial
  value_read _ _ := trivial
  lookup _ _ _ := trivial
  owner _ _ _ := trivial
  rootOf _ _ := trivial
  bind name _ _ _ := ⟨trivial, Store.retains_bind _ name _⟩
  addScope _ _ _ _ := ⟨trivial, Store.retains_addScope _, trivial⟩
  quiet _ hscopes _ := ⟨trivial, Store.retains_of_same hscopes⟩

/-! ## Names that are added -/

/-- Approving of all but the two ways in which a name gets into a scope: the evaluation
of a form that defines it there and, if the scope is an outermost one, the invocation
of a setter of global names that binds it there. -/
def Watch.additions (place : ScopeId) (name : String) : Watch where
  evaluates _ scope expression := ¬ (scope = place ∧ expression.Defines name)
  invokes s callee arguments :=
    ¬ (s.outer? place = none ∧
      ∃ scope, s.rootOf scope = place ∧ callee.SetsGlobal scope name arguments)
  ends _ _ _ := True

/-- Evaluation under a discipline, in stores in which one scope does not bind a name.
The name may be bound in all other scopes, and all other names in this one. -/
def Discipline.barring (D : Discipline) (place : ScopeId) (name : String) : Coupling where
  __ := D.coupling
  stores s t := D.coupling.stores s t ∧ s.Lacks place name
  binds s scope other := D.scope s scope ∧ ¬ (scope = place ∧ other = name)
  binds_later hlater h := ⟨D.scope_later hlater h.1, h.2⟩
  same h := D.coupling.same h.1
  lookup h := D.coupling.lookup h.1
  owner {s t scope other expression} h hsource hassigns := by
    obtain ⟨hsame, hallowed⟩ := D.coupling.owner h.1 hsource hassigns
    refine ⟨hsame, fun owner howner => ⟨hallowed owner howner, ?_⟩⟩
    rintro ⟨rfl, rfl⟩
    have hbound := Store.isSome_local?_of_owner? howner
    rw [h.2.2] at hbound
    cases hbound
  rootOf h := D.coupling.rootOf h.1
  read h := D.coupling.read h.1
  bind {s t scope other v} h hbinds hv := by
    have hbind : D.coupling.stores (s.bind scope other v) (t.bind scope other v) ∧
        D.coupling.later s (s.bind scope other v) := D.coupling.bind h.1 hbinds.1 hv
    exact ⟨⟨hbind.1, h.2.bind v hbinds.2⟩, hbind.2⟩
  call h hcallee harguments := by
    obtain ⟨hstores, hlater, hbody⟩ := D.coupling.call h.1 hcallee harguments
    exact ⟨⟨hstores, h.2.addScope _⟩, hlater, hbody⟩
  enter h hsource := by
    obtain ⟨hstores, hlater, hparts, hbinds⟩ := D.coupling.enter h.1 hsource
    refine ⟨⟨hstores, h.2.addScope _⟩, hlater, hparts, fun other => ⟨hbinds other, ?_⟩⟩
    -- the scope that is new is not one that existed
    exact fun hsame => Nat.ne_of_gt h.2.1 hsame.1
  quiet identity output seed h := by
    obtain ⟨hstores, hlater⟩ := D.coupling.quiet identity output seed h.1
    exact ⟨⟨hstores, h.2⟩, hlater⟩

namespace Confinement

variable {s t u : Store}

/-- All scopes that exist at the start may be used. -/
def existing (h : s.Sound) : Confinement where
  start := s
  usable := (· < s.scopes.size)
  closed i j hi hlink := by
    cases hlink with
    | outer houter => exact Nat.lt_trans (h.earlier i j houter) hi
    | value hv hheld => exact h.held i _ hv j hheld

theorem lt_of_allows {h : s.Sound} (hkeeps : (existing h).Keeps t) {i : ScopeId}
    (hi : (existing h).Allows t i) : i < t.scopes.size := by
  rcases hi with hi | ⟨-, hi⟩
  · exact Nat.lt_of_lt_of_le hi hkeeps.grows.size
  · exact hi

/-- Each scope goes on lying inside an earlier one. -/
theorem earlier_of_keeps {h : s.Sound} (hkeeps : (existing h).Keeps t) (i j : ScopeId)
    (houter : t.outer? i = some j) : j < i := by
  rcases Nat.lt_or_ge i s.scopes.size with hold | hnew
  · rw [hkeeps.grows.outer i hold] at houter
    exact h.earlier i j houter
  · obtain ⟨k, hk, hlt⟩ := hkeeps.inside i hnew (Store.lt_of_outer? houter)
    cases houter.symm.trans hk
    rcases hlt with hlt | ⟨-, hlt⟩
    · exact Nat.lt_of_lt_of_le hlt hnew
    · exact hlt

end Confinement

/-! ## Evaluation -/

section

variable {s t : Store} {hsound : s.Sound} {place : ScopeId} {name : String} {alarm : Stop}

/-- The coupling of all evaluations from a store on, as long as a scope does not bind a
name. -/
def Store.Sound.unbound (hsound : s.Sound) (place : ScopeId) (name : String) : Coupling :=
  (Confinement.existing hsound).discipline.barring place name

/-- A run that is looked at ends like itself if it does so where it is approved of. -/
theorem Watch.coupled_guarded (halarm : alarm.carried? = none) {begins : Store → Prop}
    {run : Run Value}
    (h : ∀ u, (hsound.unbound place name).later t u → (Confinement.existing hsound).Keeps u →
      begins u → Run.Coupled (hsound.unbound place name) u (hsound.unbound place name).value
        run run) :
    Run.Coupled (hsound.unbound place name) t (hsound.unbound place name).value
      ((additions place name).guarded alarm begins run)
      ((additions place name).guarded alarm begins run) := by
  intro u w hstores hlater
  have hsame : u = w := hstores.1.1
  subst hsame
  unfold guarded
  by_cases hbegins : begins u
  · rw [if_pos ⟨hbegins, trivial⟩]
    exact h u hlater hstores.1.2 hbegins u u hstores (Coupling.later_refl _ u)
  · rw [if_neg fun happroved => hbegins happroved.1]
    refine .error hstores (Coupling.later_refl _ u) fun v hv => ?_
    rw [halarm] at hv
    cases hv

namespace Machine

variable {m : Machine}

/-- Where the evaluation is approved of, no form defines the name in the scope. -/
theorem coupled_additions_eval (h : m.Coupled (hsound.unbound place name) m)
    (halarm : alarm.carried? = none) {scope : ScopeId} {expression : Value}
    (hsource : (hsound.unbound place name).source t scope expression) :
    Run.Coupled (hsound.unbound place name) t (hsound.unbound place name).value
      (((Watch.additions place name).watching alarm (above hosts m)).eval scope expression)
      (((Watch.additions place name).watching alarm (above hosts m)).eval scope expression) := by
  apply Watch.coupled_guarded halarm
  intro u hlater hkeeps happroved
  have hsource := (hsound.unbound place name).source_later hlater hsource
  apply h.evalStep hsource
  intro other hdefines
  refine ⟨hsource.1, ?_⟩
  rintro ⟨rfl, rfl⟩
  exact happroved ⟨rfl, hdefines⟩

/-- Where the invocation is approved of, no setter of global names binds the name in
the scope. -/
theorem coupled_additions_invoke [hosts.Coupled] (h : m.Coupled (hsound.unbound place name) m)
    (halarm : alarm.carried? = none) {callee : Value} {arguments : List Value}
    (hcallee : (hsound.unbound place name).value t callee)
    (harguments : (hsound.unbound place name).values t arguments) :
    Run.Coupled (hsound.unbound place name) t (hsound.unbound place name).value
      (((Watch.additions place name).watching alarm (above hosts m)).invoke callee arguments)
      (((Watch.additions place name).watching alarm (above hosts m)).invoke callee arguments) := by
  apply Watch.coupled_guarded halarm
  intro u hlater hkeeps happroved
  have hcallee := (hsound.unbound place name).value_later hlater hcallee
  apply h.invokeStep hcallee (Coupling.values_later hlater harguments)
  intro scope other hsets w w' hstores hlater'
  have hscope : (Confinement.existing hsound).Allows u scope := by
    cases hsets with
    | symbol | string => exact hcallee scope List.mem_cons_self
  have hkeeps' : (Confinement.existing hsound).Keeps w := hstores.1.2
  have hgrows : u.Grows w := hlater'
  have hearlier := Confinement.earlier_of_keeps hkeeps
  have hlt : scope < u.scopes.size := Confinement.lt_of_allows hkeeps hscope
  have hroot : w.rootOf scope = u.rootOf scope :=
    Store.rootOf_of_grows hgrows hearlier (Confinement.earlier_of_keeps hkeeps') hlt
  refine ⟨Confinement.allows_rootOf hkeeps' (hscope.later hgrows), ?_⟩
  rintro ⟨rfl, rfl⟩
  rw [hroot] at happroved
  exact happroved ⟨Store.outer?_rootOf hearlier hlt, scope, rfl, hsets⟩

/-- A machine that stops at both ways in which the scope could get the name does not
give it the name. -/
theorem coupled_additions (hosts : Hosts) [hosts.Coupled] (halarm : alarm.carried? = none)
    (rounds depth : Nat) :
    (watched hosts (Watch.additions place name) alarm rounds depth).Coupled
      (hsound.unbound place name)
      (watched hosts (Watch.additions place name) alarm rounds depth) := by
  induction depth with
  | zero =>
    have hbottom := coupled_bottom (C := hsound.unbound place name) rounds
    refine ⟨rfl, rfl, fun hsource => ?_, fun hcallee harguments => ?_⟩
    · exact Watch.coupled_guarded halarm fun u hlater _ _ =>
        hbottom.eval ((hsound.unbound place name).source_later hlater hsource)
    · exact Watch.coupled_guarded halarm fun u hlater _ _ =>
        hbottom.invoke ((hsound.unbound place name).value_later hlater hcallee)
          (Coupling.values_later hlater harguments)
  | succ depth ih =>
    exact ⟨rfl, rfl, coupled_additions_eval ih halarm, coupled_additions_invoke ih halarm⟩

/-- Whatever is evaluated, and whether the evaluation ends well or not, no scope and no
name is lost, and every name that could be found from some scope can be found from
there, in the same scope or a nearer one.  Whenever a scope that was there before has
got a new name, a watch for the two ways in which it gets one stops the evaluation. -/
theorem eval_retains (hosts : Hosts) [hosts.Coupled] (rounds depth : Nat) {s : Store}
    (hsound : s.Sound) {env : ScopeId} (henv : env < s.scopes.size) {expression : Value}
    (hexpression : ∀ i ∈ expression.mentions s.root, i < s.scopes.size) :
    let after := Run.left ((ofDepth hosts rounds depth).eval env expression s)
    s.Retains after ∧
      (∀ scope name owner, s.owner? scope name = some owner → ∃ nearer,
        after.owner? scope name = some nearer ∧
          (s.path scope).idxOf nearer ≤ (s.path scope).idxOf owner) ∧
      ∀ place name, place < s.scopes.size → s.local? place name = none →
        (after.local? place name).isSome → ∀ alarm : Stop, alarm.carried? = none →
          (watched hosts (Watch.additions place name) alarm rounds depth).eval env expression s ≠
            (ofDepth hosts rounds depth).eval env expression s := by
  intro after
  let c := Confinement.existing hsound
  have hscope : c.Allows s env := .inl henv
  have hvalue : c.AllowsValue s expression := fun i hi => .inl (hexpression i hi)
  have hretains : s.Retains after := by
    have hagree : Run.Agree retention s retention.value
        ((ofDepth hosts rounds depth).eval env expression)
        ((ofDepth hosts rounds depth).eval env expression) :=
      (agree_ofDepth hosts rounds depth).eval trivial trivial
    exact (hagree s trivial (Store.retains_refl s)).2.left.2
  refine ⟨hretains, ?_, ?_⟩
  · intro scope name owner howner
    have hkeeps : c.Keeps after := by
      have hagree := (agree_ofDepth (D := c.discipline) hosts rounds depth).eval hscope hvalue
      exact (hagree s c.keeps_start (Store.grows_refl s)).2.left.1
    have hlt : scope < s.scopes.size := Store.lt_of_owner? howner
    exact hretains.owner? (Store.path_of_grows hretains.toGrows hsound.earlier
      (Confinement.earlier_of_keeps hkeeps) hlt) howner
  · intro place name hplace hnone hbound alarm halarm hsame
    let C := hsound.unbound place name
    have hsource : C.source s env expression := ⟨hscope, hvalue⟩
    have hstart : C.stores s s := ⟨⟨rfl, c.keeps_start⟩, hplace, hnone⟩
    have hends := (coupled_additions hosts halarm rounds depth).eval hsource s s hstart
      (Store.grows_refl s)
    rw [hsame] at hends
    have hnone' : after.local? place name = none := hends.stores.2.2
    rw [hnone'] at hbound
    cases hbound

/-- A name of the root is defined again in a scope inside it.  It is found there from
then on, and a watch for its addition notices. -/
theorem eval_retains_nearer :
    let s : Store := ⟨#[⟨none, [("x", .int 1)]⟩, ⟨some 0, []⟩], 0, 0, "", 0⟩
    let expression := Value.form [.identifier "define", .identifier "x", .int 2]
    let after := Run.left ((ofDepth usualHosts 1 2).eval 1 expression s)
    usualHosts.Coupled ∧ s.Sound ∧ s.Retains after ∧ s.owner? 1 "x" = some 0 ∧
      after.owner? 1 "x" = some 1 ∧
      (watched usualHosts (Watch.additions 1 "x") .tooDeep 1 2).eval 1 expression s ≠
        (ofDepth usualHosts 1 2).eval 1 expression s := by
  intro s expression after
  have hscopes : ∀ i scope, s.scopes[i]? = some scope →
      (scope.outer = none ∨ scope.outer = some 0 ∧ i = 1) ∧
        ∀ binding ∈ scope.bindings, binding = ("x", .int 1) := by
    intro i scope hscope
    match i with
    | 0 =>
      cases hscope
      exact ⟨.inl rfl, fun binding hbinding => List.mem_singleton.1 hbinding⟩
    | 1 =>
      cases hscope
      exact ⟨.inr ⟨rfl, rfl⟩, fun binding hbinding => by cases hbinding⟩
    | i + 2 => cases hscope
  have hsound : s.Sound := by
    refine ⟨?_, ?_⟩
    · intro i j hlink
      obtain ⟨scope, hscope, houter⟩ := Option.bind_eq_some_iff.1 hlink
      rcases (hscopes i scope hscope).1 with hnone | ⟨hzero, rfl⟩
      · cases houter.symm.trans hnone
      · cases houter.symm.trans hzero
        exact Nat.zero_lt_one
    · rintro i v ⟨scope, hscope, bound, hbinding⟩ k hk
      cases (hscopes i scope hscope).2 _ hbinding
      cases hk
  have hexpression : ∀ i ∈ expression.mentions s.root, i < s.scopes.size := by
    intro i hi
    cases hi
  have henv : 1 < s.scopes.size := by decide
  obtain ⟨hretains, -, hadded⟩ :=
    eval_retains usualHosts 1 2 hsound henv hexpression
  exact ⟨inferInstance, hsound, hretains, rfl, rfl,
    hadded 1 "x" (by decide) rfl rfl .tooDeep rfl⟩

end Machine

end

end TinyLisp
