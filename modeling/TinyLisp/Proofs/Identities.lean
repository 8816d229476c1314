import TinyLisp.Proofs.Scopes
import TinyLisp.Proofs.Simulation.Forms

/-!
# Identities

An evaluation depends on identities only as far as they tell objects apart.  Begun
with other identities it ends in the same way, with the other identities in its
value, its error and its store.

There are four groups.

* `Store.Renamed`: two stores that are the same but for identities.  A search in
  one of them finds what it finds in the other.
* `Simulation.renaming`: evaluations in two such stores, under a rule for the
  identities that are still to be given.
* `Store.Fresh`: no object has an identity that is still to be given.  Evaluation
  keeps to that.
* `Machine.eval_reserve`: an evaluation begun with an identity set aside.
-/

namespace TinyLisp

variable {new : Identity → Identity} {hosts : Hosts} {s t : Store}

/-! ## The same but for identities -/

namespace Store

/-- The second store is the first one with other identities. -/
structure Renamed (new : Identity → Identity) (s t : Store) : Prop where
  scopes : t.scopes = s.scopes.map (Scope.rename new)
  root : t.root = s.root
  output : t.output = s.output
  seed : t.seed = s.seed

namespace Renamed

theorem scope (h : s.Renamed new t) (place : ScopeId) :
    t.scopes[place]? = s.scopes[place]?.map (Scope.rename new) := by
  rw [h.scopes, Array.getElem?_map]

theorem path (h : s.Renamed new t) (place : ScopeId) : t.path place = s.path place := by
  have hpath : ∀ count place, t.pathWithin count place = s.pathWithin count place := by
    intro count
    induction count with
    | zero => exact fun _ => rfl
    | succ count ih =>
      intro place
      rw [pathWithin, pathWithin, h.scope]
      cases s.scopes[place]? with
      | none => rfl
      | some scope =>
        obtain ⟨_ | outer, bindings⟩ := scope
        · rfl
        · exact congrArg (place :: ·) (ih outer)
  rw [Store.path, Store.path, hpath, h.scopes, Array.size_map]

theorem local? (h : s.Renamed new t) (place : ScopeId) (name : String) :
    t.local? place name = (s.local? place name).map (Value.rename new) := by
  rw [Store.local?, Store.local?, h.scope]
  cases s.scopes[place]? with
  | none => rfl
  | some scope => exact scope.local?_rename name

theorem lookup? (h : s.Renamed new t) (place : ScopeId) (name : String) :
    t.lookup? place name = (s.lookup? place name).map (Value.rename new) := by
  rw [Store.lookup?, Store.lookup?, h.path]
  induction s.path place with
  | nil => rfl
  | cons first rest ih =>
    rw [List.findSome?_cons, List.findSome?_cons, h.local?, ih]
    cases s.local? first name <;> rfl

theorem owner? (h : s.Renamed new t) (place : ScopeId) (name : String) :
    t.owner? place name = s.owner? place name := by
  unfold Store.owner?
  rw [h.path]
  congr 1
  funext place
  rw [h.local?, Option.isSome_map]

theorem rootOf (h : s.Renamed new t) (place : ScopeId) : t.rootOf place = s.rootOf place := by
  rw [Store.rootOf, Store.rootOf, h.path]

theorem bind (h : s.Renamed new t) (place : ScopeId) (name : String) (v : Value) :
    (s.bind place name v).Renamed new (t.bind place name (v.rename new)) where
  scopes := by
    apply Array.ext_getElem?
    intro i
    rw [Store.bind, Store.bind, Array.getElem?_map, Array.getElem?_modify, Array.getElem?_modify,
      h.scope]
    split
    · cases s.scopes[i]? with
      | none => rfl
      | some scope => exact congrArg some (scope.rename_bind name v).symm
    · rfl
  root := h.root
  output := h.output
  seed := h.seed

theorem addScope (h : s.Renamed new t) (scope : Scope) :
    (t.addScope (scope.rename new)).1 = (s.addScope scope).1 ∧
      (s.addScope scope).2.Renamed new (t.addScope (scope.rename new)).2 := by
  refine ⟨?_, ?_, h.root, h.output, h.seed⟩
  · show t.scopes.size = s.scopes.size
    rw [h.scopes, Array.size_map]
  · show t.scopes.push _ = (s.scopes.push scope).map _
    rw [h.scopes, Array.map_push]

theorem print (h : s.Renamed new t) (text : String) :
    (s.print text).Renamed new (t.print text) where
  scopes := h.scopes
  root := h.root
  output := congrArg (· ++ text) h.output
  seed := h.seed

theorem draw (h : s.Renamed new t) :
    t.draw.1 = s.draw.1 ∧ s.draw.2.Renamed new t.draw.2 := by
  obtain ⟨scopes, root, nextIdentity, output, seed⟩ := s
  obtain ⟨scopes', root', nextIdentity', output', seed'⟩ := t
  obtain ⟨hscopes, hroot, houtput, hseed⟩ := h
  simp only at hscopes hroot houtput hseed
  subst hscopes hroot houtput hseed
  exact ⟨rfl, rfl, rfl, rfl, rfl⟩

end Renamed

end Store

/-! ## Evaluations -/

/-- Evaluations in stores that are the same but for identities.  The identities that
are still to be given are compared by `next`. -/
def Simulation.renaming (new : Nat → Nat) (hinjective : Function.Injective new)
    (gone : Nat → Prop) (hgone : ∀ i j, i ≤ j → gone i → gone j) (next : Nat → Nat → Prop)
    (hnext : ∀ i j count, next i j → gone (i + count) ∨
      (∀ k < count, new (i + k) = j + k) ∧ next (i + count) (j + count)) : Simulation where
  excuses _ := False
  gone s := gone s.nextIdentity
  new := new
  store s t := s.Renamed new t ∧ next s.nextIdentity t.nextIdentity
  not_excuses_fault _ h := h
  gone_later hle := hgone _ _ hle
  injective := hinjective
  root h := h.1.root
  lookup h := h.1.lookup? _ _
  owner h := h.1.owner? _ _
  rootOf h := h.1.rootOf _
  bind scope name v h := ⟨h.1.bind scope name v, h.2⟩
  addScope scope h := ⟨(h.1.addScope scope).1, (h.1.addScope scope).2, h.2⟩
  reserve := by
    intro s t count h
    rcases hnext s.nextIdentity t.nextIdentity count h.2 with hgone | ⟨hnew, hnext⟩
    · exact .inl hgone
    · exact .inr ⟨hnew, ⟨h.1.scopes, h.1.root, h.1.output, h.1.seed⟩, hnext⟩
  print text h := ⟨h.1.print text, h.2⟩
  draw := by
    intro s t h
    obtain ⟨hdraw, hrenamed⟩ := h.1.draw
    rw [Store.nextIdentity_draw, Store.nextIdentity_draw]
    exact ⟨hdraw, hrenamed, h.2⟩

/-! ## Identities that are still to be given -/

/-- The identities from `first` on, moved up by `count`. -/
def leaveOut (first count i : Nat) : Nat :=
  if i < first then i else i + count

theorem leaveOut_of_lt {first count i : Nat} (h : i < first) : leaveOut first count i = i :=
  if_pos h

theorem leaveOut_of_le {first count i : Nat} (h : first ≤ i) :
    leaveOut first count i = i + count :=
  if_neg (Nat.not_lt.2 h)

theorem injective_leaveOut (first count : Nat) :
    Function.Injective (leaveOut first count) := by
  intro i j h
  unfold leaveOut at h
  split at h <;> split at h <;> omega

theorem leaveOut_eq_self_iff {first i : Nat} : leaveOut first 1 i = i ↔ i < first := by
  unfold leaveOut
  split <;> omega

namespace Store

/-- All identities in a value have been given. -/
def Knows (s : Store) (v : Value) : Prop :=
  ∀ i ∈ v.identities, i < s.nextIdentity

/-- All identities in the store have been given. -/
def Fresh (s : Store) : Prop :=
  ∀ place v, s.Contains place v → s.Knows v

/-- A store is its own copy when nothing that it binds has another identity there. -/
theorem renamed_self_iff :
    s.Renamed new s ↔ ∀ place v, s.Contains place v → v.rename new = v := by
  have hscope : ∀ scope : Scope,
      scope.rename new = scope ↔ ∀ binding ∈ scope.bindings, binding.2.rename new = binding.2 := by
    rintro ⟨outer, bindings⟩
    have hbindings : bindings.map (fun b => (b.1, b.2.rename new)) = bindings.map id ↔ _ :=
      List.map_inj_left
    rw [List.map_id] at hbindings
    simpa [Scope.rename, Prod.ext_iff] using hbindings
  constructor
  · rintro h place v ⟨scope, hplace, name, hbinding⟩
    have heq := h.scope place
    rw [hplace] at heq
    exact (hscope scope).1 (Option.some.inj heq).symm (name, v) hbinding
  · intro h
    refine ⟨?_, rfl, rfl, rfl⟩
    apply Array.ext_getElem?
    intro place
    rw [Array.getElem?_map]
    cases hplace : s.scopes[place]? with
    | none => rfl
    | some scope =>
      have heq := (hscope scope).2 fun binding hbinding =>
        h place binding.2 ⟨scope, hplace, binding.1, hbinding⟩
      rw [Option.map_some, heq]

end Store

theorem Value.rename_leaveOut_iff {first : Identity} (v : Value) :
    v.rename (leaveOut first 1) = v ↔ ∀ i ∈ v.identities, i < first := by
  rw [rename_eq_self_iff]
  simp only [leaveOut_eq_self_iff]

namespace Simulation

/-- An evaluation and its copy with the identities from `bound` on moved up by one.
Nothing is promised once one of them has been given. -/
def within (bound : Nat) : Simulation :=
  .renaming (leaveOut bound 1) (injective_leaveOut bound 1) (bound < ·)
    (fun _ _ hle h => Nat.lt_of_lt_of_le h hle) (fun i j => j = i ∧ i ≤ bound) (by
      rintro i j count ⟨rfl, -⟩
      rcases Nat.lt_or_ge bound (j + count) with h | h
      · exact .inl h
      · exact .inr ⟨fun k hk => leaveOut_of_lt (by omega), rfl, h⟩)

/-- An evaluation and its copy with `count` identities from `first` on left out. -/
def setAside (first count : Nat) : Simulation :=
  .renaming (leaveOut first count) (injective_leaveOut first count) (fun _ => False)
    (fun _ _ _ => id) (fun i j => first ≤ i ∧ j = i + count) (by
      rintro i j added ⟨hi, rfl⟩
      refine .inr ⟨fun k _ => ?_, ?_, ?_⟩
      · rw [leaveOut_of_le (Nat.le_add_right_of_le hi)]
        omega
      · omega
      · omega)

end Simulation

/-! ## Freshness is kept -/

section

variable {α : Type} {f : α → α} {bound : Nat}

/-- A run that is its own copy leaves a store behind that is its own copy. -/
theorem Simulation.Ends.renamed_left {result result' : EStateM.Result Stop Store α}
    (h : (within bound).Ends f result result') (hsame : result' = result)
    (hbound : bound = (Run.left result).nextIdentity) :
    (Run.left result).Renamed (leaveOut bound 1) (Run.left result) := by
  cases h with
  | gone h => exact absurd h (Nat.not_lt_of_le (Nat.le_of_eq hbound.symm))
  | excused h => exact h.elim
  | ok h =>
    obtain ⟨-, rfl⟩ := EStateM.Result.ok.inj hsame
    exact h.1
  | error h =>
    obtain ⟨-, rfl⟩ := EStateM.Result.error.inj hsame
    exact h.1

/-- A run that is its own copy hands out a value that is its own copy. -/
theorem Simulation.Ends.rename_handed {result result' : EStateM.Result Stop Store Value}
    (h : (within bound).Ends (Value.rename (leaveOut bound 1)) result result')
    (hsame : result' = result) (hbound : bound = (Run.left result).nextIdentity) {v : Value}
    (hv : Run.handed? result = some v) : v.rename (leaveOut bound 1) = v := by
  cases h with
  | gone h => exact absurd h (Nat.not_lt_of_le (Nat.le_of_eq hbound.symm))
  | excused h => exact h.elim
  | ok h =>
    obtain ⟨hvalue, -⟩ := EStateM.Result.ok.inj hsame
    cases hv
    exact hvalue
  | @error stop _ _ h =>
    obtain ⟨hstop, -⟩ := EStateM.Result.error.inj hsame
    rcases stop with ⟨_ | _ | refused | _ | _ | _ | _⟩ | _ | _ | _ <;> cases hv
    injection hstop with hstop
    injection hstop with hstop
    exact congrArg Refused.value hstop

theorem Store.Fresh.renamed (h : s.Fresh) (hbound : s.nextIdentity ≤ bound) :
    s.Renamed (leaveOut bound 1) s := by
  rw [Store.renamed_self_iff]
  intro place v hv
  rw [Value.rename_leaveOut_iff]
  exact fun i hi => Nat.lt_of_lt_of_le (h place v hv i hi) hbound

theorem Store.fresh_of_renamed (h : s.Renamed (leaveOut s.nextIdentity 1) s) : s.Fresh := by
  rw [Store.renamed_self_iff] at h
  exact fun place v hv => (Value.rename_leaveOut_iff v).1 (h place v hv)

/-- A run that is its own copy keeps a store fresh. -/
theorem Run.left_fresh {run : Run α} (hfresh : s.Fresh)
    (hlater : s.nextIdentity ≤ (left (run s)).nextIdentity)
    (h : Run.Follows (.within (left (run s)).nextIdentity) f run run) : (left (run s)).Fresh := by
  have hends := h.ends ⟨hfresh.renamed hlater, rfl, hlater⟩
  exact Store.fresh_of_renamed (hends.renamed_left rfl rfl)

theorem Run.knows_handed {run : Run Value} (hfresh : s.Fresh)
    (hlater : s.nextIdentity ≤ (left (run s)).nextIdentity)
    (h : Run.Follows (.within (left (run s)).nextIdentity)
      (Value.rename (leaveOut (left (run s)).nextIdentity 1)) run run) {v : Value}
    (hv : handed? (run s) = some v) : (left (run s)).Knows v := by
  have hends := h.ends ⟨hfresh.renamed hlater, rfl, hlater⟩
  exact (Value.rename_leaveOut_iff v).1 (hends.rename_handed rfl rfl hv)

/-- A run takes no identities back. -/
theorem Run.nextIdentity_le {run : Run α}
    (h : ∀ bound, ∃ f run', Run.Follows (.within bound) f run run') (s : Store) :
    s.nextIdentity ≤ (left (run s)).nextIdentity := by
  rcases Nat.eq_zero_or_pos s.nextIdentity with hzero | hpos
  · rw [hzero]
    exact Nat.zero_le _
  · obtain ⟨f, run', hfollows⟩ := h (s.nextIdentity - 1)
    exact Nat.le_of_pred_lt (hfollows.gone (Nat.sub_one_lt_of_lt hpos))

end

/-- The evaluation of an expression that holds no identity that is still to be given
keeps the store fresh, and so is the value that it hands out. -/
theorem Machine.fresh_eval [hosts.Uniform] (rounds depth : Nat) (scope : ScopeId)
    {expression : Value} (hfresh : s.Fresh) (hexpression : s.Knows expression) :
    (Run.left ((ofDepth hosts rounds depth).eval scope expression s)).Fresh ∧
      ∀ v, Run.handed? ((ofDepth hosts rounds depth).eval scope expression s) = some v →
        (Run.left ((ofDepth hosts rounds depth).eval scope expression s)).Knows v := by
  have hfollows := fun bound =>
    (follows_ofDepth hosts (S := .within bound) (.refl rounds) (.refl depth)).eval scope expression
  have hlater := Run.nextIdentity_le (fun bound => ⟨_, _, hfollows bound⟩) s
  have hcopy := hfollows
    (Run.left ((ofDepth hosts rounds depth).eval scope expression s)).nextIdentity
  have hsame : expression.rename (Simulation.within _).new = expression :=
    (Value.rename_leaveOut_iff expression).2 fun i hi =>
      Nat.lt_of_lt_of_le (hexpression i hi) hlater
  rw [hsame] at hcopy
  exact ⟨Run.left_fresh hfresh hlater hcopy, fun v hv => Run.knows_handed hfresh hlater hcopy hv⟩

/-! ## Setting identities aside -/

/-- The second of two evaluations ends as the first one does, with other identities. -/
inductive Run.RenamedResult (new : Identity → Identity) :
    EStateM.Result Stop Store Value → EStateM.Result Stop Store Value → Prop where
  | ok {v : Value} {s t : Store} (h : s.Renamed new t) :
      RenamedResult new (.ok v s) (.ok (v.rename new) t)
  | error {stop : Stop} {s t : Store} (h : s.Renamed new t) :
      RenamedResult new (.error stop s) (.error (stop.rename new) t)

theorem Store.Knows.rename_leaveOut {v : Value} (h : s.Knows v) (count : Nat) :
    v.rename (leaveOut s.nextIdentity count) = v := by
  rw [Value.rename_eq_self_iff]
  exact fun i hi => leaveOut_of_lt (h i hi)

/-- A run that is its own copy with identities left out ends in the same way when they are set
aside before. -/
theorem Run.renamed_reserve {run : Run Value} (hfresh : s.Fresh) (count : Nat)
    (h : Run.Follows (.setAside s.nextIdentity count)
      (Value.rename (leaveOut s.nextIdentity count)) run run) :
    RenamedResult (leaveOut s.nextIdentity count) (run s) (run (s.reserve count).2) := by
  have hself : s.Renamed (leaveOut s.nextIdentity count) s :=
    Store.renamed_self_iff.2 fun place v hv => (hfresh place v hv).rename_leaveOut count
  have hstart : (Simulation.setAside s.nextIdentity count).store s (s.reserve count).2 :=
    ⟨⟨hself.scopes, rfl, rfl, rfl⟩, Nat.le_refl _, rfl⟩
  have hends := h.ends hstart
  generalize run s = result at hends ⊢
  generalize run (s.reserve count).2 = result' at hends ⊢
  cases hends with
  | gone h => exact h.elim
  | excused h => exact h.elim
  | ok h => exact .ok h.1
  | error h => exact .error h.1

/-- An evaluation ends in the same way when an identity is set aside before. -/
theorem Machine.eval_reserve (hosts : Hosts) [hosts.Uniform] (rounds depth : Nat) (scope : ScopeId)
    {expression : Value} (hfresh : s.Fresh) (hexpression : s.Knows expression) (count : Nat) :
    Run.RenamedResult (leaveOut s.nextIdentity count)
      ((ofDepth hosts rounds depth).eval scope expression s)
      ((ofDepth hosts rounds depth).eval scope expression (s.reserve count).2) := by
  have hfollows := (follows_ofDepth hosts (S := .setAside s.nextIdentity count)
    (.refl rounds) (.refl depth)).eval scope expression
  have hsame : expression.rename (Simulation.setAside s.nextIdentity count).new = expression :=
    hexpression.rename_leaveOut count
  rw [hsame] at hfollows
  exact Run.renamed_reserve hfresh count hfollows

/-- A call without arguments ends in the same way when an identity is set aside before. -/
theorem Machine.invoke_reserve [hosts.Uniform] (rounds depth : Nat) {callee : Value}
    (hfresh : s.Fresh) (hcallee : s.Knows callee) (count : Nat) :
    Run.RenamedResult (leaveOut s.nextIdentity count)
      ((ofDepth hosts rounds depth).invoke callee [] s)
      ((ofDepth hosts rounds depth).invoke callee [] (s.reserve count).2) := by
  have hfollows := (follows_ofDepth hosts (S := .setAside s.nextIdentity count)
    (.refl rounds) (.refl depth)).invoke callee []
  have hsame : callee.rename (Simulation.setAside s.nextIdentity count).new = callee :=
    hcallee.rename_leaveOut count
  rw [hsame] at hfollows
  exact Run.renamed_reserve hfresh count hfollows

end TinyLisp
