import TinyLisp.Proofs.Renaming

/-!
# Runs that follow each other

A simulation says how one evaluation answers another one: from stores that
correspond, both end alike and leave stores behind that correspond.  The second
one has other identities.  It is promised nothing where the first one ends for a
reason that is excused, as when its limits are narrower.

There are five groups.

* `Simulation`: excuses, identities and stores, with the laws that evaluation
  needs.  `Simulation.Further` compares limits.
* `Run.Follows`: the second run answers the first.  There is one rule for each
  way of putting runs together.
* Rows of runs.
* The actions on the store, each of which follows itself.
* New objects, which get identities that correspond.
-/

namespace TinyLisp

/-! ## Simulations -/

/-- How one evaluation answers another one. -/
structure Simulation where
  /-- The reasons to stop behind which nothing is promised. -/
  excuses : Stop → Prop
  /-- The stores from which on nothing is promised. -/
  gone : Store → Prop
  /-- The identities of the second evaluation in place of those of the first. -/
  new : Identity → Identity
  /-- Stores of the two evaluations that correspond. -/
  store : Store → Store → Prop
  not_excuses_fault : ∀ fault, ¬ excuses (.fault fault)
  gone_later : ∀ {s t}, s.nextIdentity ≤ t.nextIdentity → gone s → gone t
  injective : Function.Injective new
  -- reading
  root : ∀ {s t}, store s t → t.root = s.root
  lookup : ∀ {s t scope name}, store s t →
    t.lookup? scope name = (s.lookup? scope name).map (Value.rename new)
  owner : ∀ {s t scope name}, store s t → t.owner? scope name = s.owner? scope name
  rootOf : ∀ {s t scope}, store s t → t.rootOf scope = s.rootOf scope
  -- changing
  bind : ∀ {s t} scope name v, store s t →
    store (s.bind scope name v) (t.bind scope name (v.rename new))
  addScope : ∀ {s t} scope, store s t →
    (t.addScope (scope.rename new)).1 = (s.addScope scope).1 ∧
      store (s.addScope scope).2 (t.addScope (scope.rename new)).2
  reserve : ∀ {s t} count, store s t → gone (s.reserve count).2 ∨
    (∀ i < count, new (s.nextIdentity + i) = t.nextIdentity + i) ∧
      store (s.reserve count).2 (t.reserve count).2
  print : ∀ {s t} text, store s t → store (s.print text) (t.print text)
  draw : ∀ {s t}, store s t → t.draw.1 = s.draw.1 ∧ store s.draw.2 t.draw.2

namespace Simulation

/-- The second limit reaches as far as the first, or further if running into the
first one is excused. -/
inductive Further (S : Simulation) (stop : Stop) : Nat → Nat → Prop where
  | zero {limit' : Nat} (h : limit' = 0 ∨ S.excuses stop) : Further S stop 0 limit'
  | succ {limit limit' : Nat} (h : Further S stop limit limit') :
      Further S stop (limit + 1) (limit' + 1)

variable {S : Simulation} {stop : Stop}

theorem Further.refl (limit : Nat) : S.Further stop limit limit := by
  induction limit with
  | zero => exact .zero (.inl rfl)
  | succ limit ih => exact .succ ih

theorem Further.of_le {limit limit' : Nat} (hexcused : S.excuses stop) (h : limit ≤ limit') :
    S.Further stop limit limit' := by
  induction limit generalizing limit' with
  | zero => exact .zero (.inr hexcused)
  | succ limit ih =>
    obtain ⟨rest, rfl⟩ := Nat.exists_eq_add_of_le' (Nat.zero_lt_of_lt h)
    exact .succ (ih (Nat.le_of_succ_le_succ h))

/-- How the second of two runs ends when it answers the first. -/
inductive Ends (S : Simulation) {α : Type} (f : α → α) :
    EStateM.Result Stop Store α → EStateM.Result Stop Store α → Prop where
  | gone {result result' : EStateM.Result Stop Store α} (h : S.gone (Run.left result)) :
      Ends S f result result'
  | excused {stop : Stop} {after : Store} {result' : EStateM.Result Stop Store α}
      (h : S.excuses stop) : Ends S f (.error stop after) result'
  | ok {a : α} {s t : Store} (h : S.store s t) : Ends S f (.ok a s) (.ok (f a) t)
  | error {stop : Stop} {s t : Store} (h : S.store s t) :
      Ends S f (.error stop s) (.error (stop.rename S.new) t)

end Simulation

/-- Random numbers have no identities. -/
theorem Store.nextIdentity_draw (s : Store) : s.draw.2.nextIdentity = s.nextIdentity := by
  have hdraw : ∃ seed, s.draw.2 = { s with seed := seed } := ⟨_, rfl⟩
  obtain ⟨seed, hdraw⟩ := hdraw
  rw [hdraw]

/-! ## One run after another -/

namespace Run

/-- The second run answers the first: from stores that correspond it gives `f a`
where the first one gives `a`. -/
structure Follows (S : Simulation) {α : Type} (f : α → α) (run run' : Run α) : Prop where
  gone : ∀ {s}, S.gone s → S.gone (left (run s))
  ends : ∀ {s t}, S.store s t → S.Ends f (run s) (run' t)

variable {S : Simulation} {α β : Type} {f : α → α} {g : β → β}

theorem follows_pure {a b : α} (h : b = f a) : Follows S f (pure a) (pure b) where
  gone hs := hs
  ends hst := by
    subst h
    exact .ok hst

theorem follows_value {v : Value} : Follows S (Value.rename S.new) (pure v)
    (pure (v.rename S.new)) :=
  follows_pure rfl

theorem follows_plain {v : Value} (h : v.isPlain = true) :
    Follows S (Value.rename S.new) (pure v) (pure v) :=
  follows_pure (Value.rename_of_isPlain h).symm

theorem follows_throw (stop : Stop) :
    Follows S f (throw stop) (throw (stop.rename S.new)) where
  gone hs := hs
  ends hst := .error hst

theorem follows_stop {stop : Stop} (h : stop.carried? = none) :
    Follows S f (throw stop) (throw stop) := by
  have hthrow : Follows S f (throw stop) (throw (stop.rename S.new)) := follows_throw stop
  rw [Stop.rename_of_carried? h] at hthrow
  exact hthrow

theorem follows_fail {error : LispError} (h : Stop.carried? (.error error) = none) :
    Follows S f (fail error) (fail error) :=
  follows_stop h

theorem follows_fault {fault : Fault} : Follows S f (Run.fault fault) (Run.fault fault) :=
  follows_stop rfl

theorem follows_excused {stop : Stop} {run' : Run α} (h : S.excuses stop) :
    Follows S f (throw stop) run' where
  gone hs := hs
  ends _ := .excused h

/-- Running into a limit. -/
theorem follows_limit {stop : Stop} {limit' : Nat} {run' : Run α}
    (h : limit' = 0 ∨ S.excuses stop) (hcarried : stop.carried? = none)
    (hrun : limit' = 0 → run' = throw stop) : Follows S f (throw stop) run' := by
  rcases h with h | h
  · rw [hrun h]
    exact follows_stop hcarried
  · exact follows_excused h

theorem follows_bind {run run' : Run α} {next next' : α → Run β} (h : Follows S f run run')
    (hnext : ∀ a, Follows S g (next a) (next' (f a))) :
    Follows S g (run >>= next) (run' >>= next') where
  gone {s} hs := by
    have hgone := h.gone hs
    cases hrun : run s with
    | ok a t =>
      rw [hrun] at hgone
      rw [bind_of_ok hrun]
      exact (hnext a).gone hgone
    | error stop t =>
      rw [hrun] at hgone
      rw [bind_of_error hrun]
      exact hgone
  ends {s t} hst := by
    show S.Ends g (EStateM.bind run next s) (EStateM.bind run' next' t)
    unfold EStateM.bind
    have hends := h.ends hst
    generalize run s = result at hends ⊢
    generalize run' t = result' at hends ⊢
    cases hends with
    | gone hgone =>
      cases result with
      | ok a u => exact .gone ((hnext a).gone hgone)
      | error stop u => exact .gone hgone
    | excused h => exact .excused h
    | ok h => exact (hnext _).ends h
    | error h => exact .error h

theorem follows_ite {c c' : Prop} [Decidable c] [Decidable c'] {run run' other other' : Run α}
    (hc : c' ↔ c) (h : Follows S f run run') (hother : Follows S f other other') :
    Follows S f (if c then run else other) (if c' then run' else other') := by
  by_cases hpos : c
  · rw [if_pos hpos, if_pos (hc.2 hpos)]
    exact h
  · rw [if_neg hpos, if_neg (hpos ∘ hc.1)]
    exact hother

/-- No excuse is a fault, so no native makes an error of it. -/
theorem follows_inNative {name : String} {run run' : Run α} (h : Follows S f run run') :
    Follows S f (inNative name run) (inNative name run') where
  gone {s} hs := by
    have hgone := h.gone hs
    unfold inNative
    generalize run s = result at hgone ⊢
    rcases result with _ | ⟨_ | _ | _ | _, _⟩ <;> exact hgone
  ends {s t} hst := by
    have hends := h.ends hst
    unfold inNative
    generalize run s = result at hends ⊢
    generalize run' t = result' at hends ⊢
    cases hends with
    | gone hgone =>
      apply Simulation.Ends.gone
      rcases result with _ | ⟨_ | _ | _ | _, _⟩ <;> exact hgone
    | @excused stop _ _ h =>
      cases stop with
      | fault fault => exact absurd h (S.not_excuses_fault fault)
      | error | tooDeep | tooLong => exact .excused h
    | ok h => exact .ok h
    | @error stop _ _ h =>
      cases stop with
      | error error => cases error <;> exact .error h
      | fault | tooDeep | tooLong => exact .error h

/-! ## Rows of runs -/

variable {γ : Type} {items : List γ} {i : γ → γ}

theorem follows_mapM {step step' : γ → Run α}
    (h : ∀ item ∈ items, Follows S f (step item) (step' (i item))) :
    Follows S (List.map f) (items.mapM step) ((items.map i).mapM step') := by
  induction items with
  | nil => exact follows_pure rfl
  | cons item items ih =>
    rw [List.map_cons, List.mapM_cons, List.mapM_cons]
    apply follows_bind (h item (by simp))
    intro result
    apply follows_bind (ih fun item hitem => h item (by simp [hitem]))
    intro results
    exact follows_pure rfl

theorem follows_foldlM {step step' : α → γ → Run α} {a : α}
    (h : ∀ total, ∀ item ∈ items, Follows S f (step total item) (step' (f total) (i item))) :
    Follows S f (items.foldlM step a) ((items.map i).foldlM step' (f a)) := by
  induction items generalizing a with
  | nil => exact follows_pure rfl
  | cons item items ih =>
    rw [List.map_cons, List.foldlM_cons, List.foldlM_cons]
    apply follows_bind (h a item (by simp))
    intro total
    exact ih fun total item hitem => h total item (by simp [hitem])

theorem follows_lastOf {step step' : γ → Run Value} {before : Value}
    (hbefore : before.isPlain = true)
    (h : ∀ item ∈ items, Follows S (Value.rename S.new) (step item) (step' (i item))) :
    Follows S (Value.rename S.new) (lastOf before step items)
      (lastOf before step' (items.map i)) := by
  have hrow : Follows S (Value.rename S.new) (items.foldlM (fun _ item => step item) before)
      ((items.map i).foldlM (fun _ item => step' item) (before.rename S.new)) :=
    follows_foldlM fun _ item hitem => h item hitem
  rw [Value.rename_of_isPlain hbefore] at hrow
  exact hrow

theorem follows_forM {step step' : γ → Run PUnit}
    (h : ∀ item ∈ items, Follows S id (step item) (step' (i item))) :
    Follows S id (items.forM step) ((items.map i).forM step') := by
  induction items with
  | nil => exact follows_pure rfl
  | cons item items ih =>
    apply follows_bind (h item (by simp))
    exact fun _ => ih fun item hitem => h item (by simp [hitem])

theorem follows_filterAuxM {step step' : γ → Run Bool} (kept : List γ)
    (h : ∀ item ∈ items, Follows S id (step item) (step' (i item))) :
    Follows S (List.map i) (items.filterAuxM step kept)
      ((items.map i).filterAuxM step' (kept.map i)) := by
  induction items generalizing kept with
  | nil => exact follows_pure rfl
  | cons item items ih =>
    apply follows_bind (h item (by simp))
    intro passes
    have hrest := fun kept => ih kept fun item hitem => h item (by simp [hitem])
    cases passes with
    | false => exact hrest kept
    | true => exact hrest (item :: kept)

theorem follows_filterM {step step' : γ → Run Bool}
    (h : ∀ item ∈ items, Follows S id (step item) (step' (i item))) :
    Follows S (List.map i) (items.filterM step) ((items.map i).filterM step') := by
  apply follows_bind (follows_filterAuxM [] h)
  intro kept
  exact follows_pure List.map_reverse.symm

/-! ## Actions on the store -/

/-- A change of the store that takes no identities back. -/
theorem follows_change {change change' : Store → α × Store}
    (hlater : ∀ s, s.nextIdentity ≤ (change s).2.nextIdentity)
    (h : ∀ {s t}, S.store s t → S.gone (change s).2 ∨
      (change' t).1 = f (change s).1 ∧ S.store (change s).2 (change' t).2) :
    Follows S f (modifyGet change) (modifyGet change') where
  gone {s} hs := S.gone_later (hlater s) hs
  ends {s t} hst := by
    show S.Ends f (.ok (change s).1 (change s).2) (.ok (change' t).1 (change' t).2)
    rcases h hst with hgone | ⟨hresult, hstore⟩
    · exact .gone hgone
    · rw [hresult]
      exact .ok hstore

/-- A run that depends on something in the store. -/
theorem follows_read (read : Store → β) (next next' : β → Run α)
    (hread : ∀ {s t}, S.store s t → read t = g (read s))
    (h : ∀ b, Follows S f (next b) (next' (g b))) :
    Follows S f (do next (read (← get))) (do next' (read (← get))) where
  gone {s} hs := (h (read s)).gone hs
  ends {s t} hst := by
    show S.Ends f (next (read s) s) (next' (read t) t)
    rw [hread hst]
    exact (h (read s)).ends hst

theorem follows_lookup (scope : ScopeId) (name : String) :
    Follows S (Value.rename S.new) (lookup scope name) (lookup scope name) := by
  let next (found : Option Value) : Run Value := found.elim (fail (.unbound name)) pure
  have hlookup : lookup scope name = (do next ((← get).lookup? scope name)) := by
    apply bind_congr
    intro s
    cases s.lookup? scope name <;> rfl
  rw [hlookup]
  apply follows_read (·.lookup? scope name) next next S.lookup
  intro found
  cases found with
  | none => exact follows_fail rfl
  | some value => exact follows_value

theorem follows_bindName (scope : ScopeId) (name : String) (v : Value) :
    Follows S id (bind scope name v) (bind scope name (v.rename S.new)) :=
  follows_change (fun _ => Nat.le_refl _) fun hst => .inr ⟨rfl, S.bind scope name v hst⟩

theorem follows_assign (scope : ScopeId) (name : String) (v : Value) :
    Follows S id (assign scope name v) (assign scope name (v.rename S.new)) := by
  let next (v : Value) (found : Option ScopeId) : Run Unit :=
    found.elim (fail (.unbound name)) fun owner => bind owner name v
  have hassign : ∀ v, assign scope name v = (do next v ((← get).owner? scope name)) := by
    intro v
    apply bind_congr
    intro s
    cases s.owner? scope name <;> rfl
  rw [hassign, hassign]
  apply follows_read (g := id) (·.owner? scope name) (next v) (next (v.rename S.new)) S.owner
  intro found
  cases found with
  | none => exact follows_fail rfl
  | some owner => exact follows_bindName owner name v

theorem follows_newScope (scope : Scope) :
    Follows S id (newScope scope) (newScope (scope.rename S.new)) :=
  follows_change (fun _ => Nat.le_refl _) fun hst => .inr (S.addScope scope hst)

theorem follows_print (text : String) : Follows S id (print text) (print text) :=
  follows_change (fun _ => Nat.le_refl _) fun hst => .inr ⟨rfl, S.print text hst⟩

theorem follows_draw : Follows S id (modifyGet Store.draw) (modifyGet Store.draw) := by
  apply follows_change fun s => Nat.le_of_eq s.nextIdentity_draw.symm
  intro s t hst
  obtain ⟨hdraw, hstore⟩ := S.draw hst
  exact .inr ⟨hdraw.trans (id_eq _).symm, hstore⟩

/-! ## New objects -/

theorem follows_reserveOne : Follows S S.new (Run.reserve 1) (Run.reserve 1) := by
  apply follows_change fun s => Nat.le_succ s.nextIdentity
  intro s t hst
  rcases S.reserve 1 hst with hgone | ⟨hnew, hstore⟩
  · exact .inl hgone
  · exact .inr ⟨(hnew 0 Nat.one_pos).symm, hstore⟩

/-- An object with an identity of its own. -/
theorem follows_new {object object' : Identity → α} (h : ∀ i, object' (S.new i) = f (object i)) :
    Follows S f (do return object (← Run.reserve 1)) (do return object' (← Run.reserve 1)) :=
  follows_bind follows_reserveOne fun i => follows_pure (h i)

theorem follows_newPair (head tail : Value) :
    Follows S (Value.rename S.new) (newPair head tail)
      (newPair (head.rename S.new) (tail.rename S.new)) :=
  follows_new fun _ => rfl

theorem follows_newChain (items : List Value) (ending : Value) :
    Follows S (Value.rename S.new) (newChain items ending)
      (newChain (items.map (Value.rename S.new)) (ending.rename S.new)) := by
  have hchain : ∀ items ending, newChain items ending = modifyGet fun s =>
      (.chain s.nextIdentity items ending, (s.reserve items.length).2) := fun _ _ => rfl
  rw [hchain, hchain, List.length_map]
  apply follows_change fun s => Nat.le_add_right s.nextIdentity items.length
  intro s t hst
  rcases S.reserve items.length hst with hgone | ⟨hnew, hstore⟩
  · exact .inl hgone
  · exact .inr ⟨(Value.rename_chain ending hnew).symm, hstore⟩

theorem follows_newList (items : List Value) :
    Follows S (Value.rename S.new) (newList items)
      (newList (items.map (Value.rename S.new))) :=
  follows_newChain items .nil

end Run

end TinyLisp
