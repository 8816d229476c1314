import TinyLisp.Proofs.Evaluation.Attempts
import TinyLisp.Proofs.Simulation.Runs

/-!
# Attempts that follow each other

An attempt does not depend on identities but for telling objects apart, and a
wider limit of its depth changes nothing but a failure at that limit.

There are six groups.

* `Attempt.Follows`: the second attempt answers the first, with one rule for each
  way of putting attempts together.
* Reading: with more room the same expressions are read, or more of them.
* Texts of values.
* Arithmetic and integers, which do not see identities at all.
* Equality and order.
* Lists.
-/

namespace TinyLisp

/-! ## Attempts -/

namespace Attempt

/-- The second attempt answers the first: it gives `f a` where the first gives `a`. -/
inductive Follows (S : Simulation) {α : Type} (f : α → α) : Attempt α → Attempt α → Prop where
  | excused {stop : Stop} {attempt' : Attempt α} (h : S.excuses stop) :
      Follows S f (.error stop) attempt'
  | ok (a : α) : Follows S f (.ok a) (.ok (f a))
  | error {stop : Stop} (h : stop.carried? = none) : Follows S f (.error stop) (.error stop)

variable {S : Simulation} {α β : Type} {f : α → α} {g : β → β}

theorem follows_ok {a b : α} (h : b = f a) : Follows S f (.ok a) (.ok b) := by
  subst h
  exact .ok a

theorem follows_fault {fault : Fault} : Follows S f (Attempt.fault fault) (Attempt.fault fault) :=
  .error rfl

theorem follows_wrongType {problem : TypeProblem} :
    Follows S f (wrongType problem) (wrongType problem) :=
  .error rfl

theorem follows_silent {attempt : Attempt α} (h : attempt.Silent) :
    Follows S id attempt attempt := by
  cases h with
  | ok h => exact .ok _
  | error h => exact .error h

theorem follows_plain {attempt : Attempt Value} (h : attempt.Plain) :
    Follows S (Value.rename S.new) attempt attempt := by
  cases h with
  | ok h => exact follows_ok (Value.rename_of_isPlain h).symm
  | error h => exact .error h

/-- Running into a limit. -/
theorem follows_limit {stop : Stop} {limit' : Nat} {attempt' : Attempt α}
    (h : limit' = 0 ∨ S.excuses stop) (hcarried : stop.carried? = none)
    (hattempt : limit' = 0 → attempt' = .error stop) : Follows S f (.error stop) attempt' := by
  rcases h with h | h
  · rw [hattempt h]
    exact .error hcarried
  · exact .excused h

theorem follows_bind {attempt attempt' : Attempt α} {next next' : α → Attempt β}
    (h : Follows S f attempt attempt') (hnext : ∀ a, Follows S g (next a) (next' (f a))) :
    Follows S g (attempt >>= next) (attempt' >>= next') := by
  cases h with
  | excused h => exact .excused h
  | ok a => exact hnext a
  | error h => exact .error h

theorem follows_map {attempt attempt' : Attempt α} {change : α → β}
    (h : Follows S id attempt attempt') :
    Follows S id (attempt.map change) (attempt'.map change) := by
  cases h with
  | excused h => exact .excused h
  | ok a => exact .ok (change a)
  | error h => exact .error h

theorem follows_mapM {items : List β} {step step' : β → Attempt α}
    (h : ∀ item ∈ items, Follows S f (step item) (step' (g item))) :
    Follows S (List.map f) (items.mapM step) ((items.map g).mapM step') := by
  induction items with
  | nil => exact .ok []
  | cons item items ih =>
    rw [List.map_cons, List.mapM_cons, List.mapM_cons]
    apply follows_bind (h item (by simp))
    intro result
    apply follows_bind (ih fun item hitem => h item (by simp [hitem]))
    exact fun results => .ok (result :: results)

/-- Results that do not depend on identities. -/
theorem follows_mapM_id {items : List β} {step step' : β → Attempt α}
    (h : ∀ item ∈ items, Follows S id (step item) (step' (g item))) :
    Follows S id (items.mapM step) ((items.map g).mapM step') := by
  have hrow := follows_mapM h
  rw [List.map_id_fun] at hrow
  exact hrow

theorem follows_foldlM {items : List β} {step step' : α → β → Attempt α} {a : α}
    (h : ∀ a, ∀ item ∈ items, Follows S f (step a item) (step' (f a) (g item))) :
    Follows S f (items.foldlM step a) ((items.map g).foldlM step' (f a)) := by
  induction items generalizing a with
  | nil => exact .ok a
  | cons item items ih =>
    rw [List.map_cons, List.foldlM_cons, List.foldlM_cons]
    apply follows_bind (h a item (by simp))
    intro b
    exact ih fun b item hitem => h b item (by simp [hitem])

end Attempt

open Attempt

namespace Run

variable {S : Simulation} {α : Type} {f : α → α}

theorem follows_ofAttempt {attempt attempt' : Attempt α}
    (h : Attempt.Follows S f attempt attempt') :
    Run.Follows S f (ofAttempt attempt) (ofAttempt attempt') := by
  cases h with
  | excused h => exact follows_excused h
  | ok a => exact follows_pure rfl
  | error h => exact follows_stop h

end Run

variable {S : Simulation} {new : Identity → Identity} {limit limit' : Nat}

/-! ## Reading -/

/-- With more room the same tree is read, unless the room is what was missing. -/
theorem readInside_further {room room' : Nat} (h : S.Further .tooDeep room room')
    (items : List Value) (outer : List (List Value)) (tokens : List Token) :
    readInside room' items outer tokens = readInside room items outer tokens ∨
      S.excuses .tooDeep ∧ (readInside room items outer tokens).1 = .error .tooDeep := by
  fun_induction readInside room items outer tokens generalizing room' with
  | case1 | case2 => exact .inl rfl
  | case3 room items rest around outer ih => exact ih (.succ h)
  | case4 items outer rest =>
    cases h with
    | zero h =>
      rcases h with rfl | h
      · exact .inl rfl
      · exact .inr ⟨h, rfl⟩
  | case5 items outer rest room ih =>
    cases h with
    | succ h => exact ih h
  | case6 room items outer text rest ih => exact ih h
  | case7 room items outer text rest ih => exact ih h

theorem readOne_further (h : S.Further .tooDeep limit limit') (tokens : List Token) :
    readOne limit' tokens = readOne limit tokens ∨
      S.excuses .tooDeep ∧ (readOne limit tokens).1 = .error .tooDeep := by
  match tokens with
  | [] | .closing :: _ | .string _ :: _ | .atom _ :: _ => exact .inl rfl
  | .opening :: rest => exact readInside_further h [] [] rest

/-- With more room the same expressions are read, or those and others behind
them when the room was what was missing. -/
theorem readMany_further (h : S.Further .tooDeep limit limit') (count : Nat)
    (tokens : List Token) :
    readMany limit' count tokens = readMany limit count tokens ∨
      S.excuses .tooDeep ∧ (readMany limit count tokens).2 = some .tooDeep ∧
        (readMany limit count tokens).1 <+: (readMany limit' count tokens).1 := by
  fun_induction readMany limit count tokens with
  | case1 | case2 => left; simp [readMany]
  | case3 count token tokens stop rest hread =>
    rcases readOne_further h (token :: tokens) with heq | ⟨hexcused, hdeep⟩
    · left
      rw [readMany, heq, hread]
    · rw [hread] at hdeep
      cases hdeep
      exact .inr ⟨hexcused, rfl, List.nil_prefix⟩
  | case4 count token tokens tree rest hread trees stop hrest ih =>
    have heq : readOne limit' (token :: tokens) = (.ok tree, rest) := by
      rcases readOne_further h (token :: tokens) with heq | ⟨-, hdeep⟩
      · rw [heq, hread]
      · rw [hread] at hdeep
        cases hdeep
    rw [hrest] at ih
    rw [readMany, heq]
    rcases ih with ih | ⟨hexcused, hstop, hprefix⟩
    · left
      simp only [ih]
    · exact .inr ⟨hexcused, hstop, List.cons_prefix_cons.2 ⟨rfl, hprefix⟩⟩

/-! ## Texts -/

namespace Value

theorem follows_inspect (h : S.Further .tooDeep limit limit') (v : Value) :
    Follows S id (v.inspect limit) ((v.rename S.new).inspect limit') := by
  induction h generalizing v with
  | zero h => exact follows_limit h rfl (by rintro rfl; rfl)
  | succ _ ih =>
    cases v with
    | int value => exact follows_silent (silent_writeInteger value)
    | form items =>
      rw [rename, renameAll_eq_map]
      exact follows_bind (follows_mapM_id fun item _ => ih item) fun _ => .ok _
    | embedded identity value => exact ih value
    | pair cell head tail =>
      exact follows_bind (ih head) fun _ => follows_bind (ih tail) fun _ => .ok _
    | nil | undefined | bool | float | string | symbol | identifier | procedure | native
    | callback => exact .ok _

theorem follows_write (h : S.Further .tooDeep limit limit') (v : Value) :
    Follows S id (v.write limit) ((v.rename S.new).write limit') := by
  induction h generalizing v with
  | zero h => exact follows_limit h rfl (by rintro rfl; rfl)
  | succ h ih =>
    cases v with
    | int value => exact follows_silent (silent_writeInteger value)
    | form items => exact follows_inspect (.succ h) (form items)
    | embedded identity value => exact ih value
    | pair cell head tail =>
      have hitems := @toList?_rename S.new (pair cell head tail)
      rw [rename] at hitems ⊢
      rw [write, write, hitems]
      cases (pair cell head tail).toList? with
      | some items => exact follows_bind (follows_mapM_id fun item _ => ih item) fun _ => .ok _
      | none => exact follows_bind (ih head) fun _ => follows_bind (ih tail) fun _ => .ok _
    | nil | undefined | bool | float | string | symbol | identifier | procedure | native
    | callback => exact .ok _

theorem follows_text (h : S.Further .tooDeep limit limit') (v : Value) :
    Follows S id (v.text limit) ((v.rename S.new).text limit') :=
  follows_map (follows_write h v)

theorem follows_inspected (h : S.Further .tooDeep limit limit') (v : Value) :
    Follows S id (v.inspected limit) ((v.rename S.new).inspected limit') :=
  follows_map (follows_inspect h v)

end Value

/-! ## Arithmetic and integers -/

namespace Arithmetic

theorem follows_number (h : S.Further .tooDeep limit limit') (name : String) (v : Value) :
    Follows S id (number limit name v) (number limit' name (v.rename S.new)) := by
  unfold number
  rw [Value.ofValue?_rename]
  cases Number.ofValue? v with
  | some number => exact .ok number
  | none => exact follows_bind (Value.follows_text h v) fun _ => follows_wrongType

theorem follows_numbers (h : S.Further .tooDeep limit limit') (name : String)
    (arguments : List Value) :
    Follows S id (numbers limit name arguments)
      (numbers limit' name (arguments.map (Value.rename S.new))) :=
  follows_mapM_id fun v _ => follows_number h name v

@[simp] theorem real_rename (v : Value) : real (v.rename new) = real v := by
  simp [real]

@[simp] theorem absolute_rename (v : Value) : absolute (v.rename new) = absolute v := by
  simp [absolute]

@[simp] theorem negate_rename (v : Value) : negate (v.rename new) = negate v := by
  simp [negate]

@[simp] theorem squareRoot_rename (v : Value) : squareRoot (v.rename new) = squareRoot v := by
  simp [squareRoot]

@[simp] theorem bounded_rename (function : Float → Float) (v : Value) :
    bounded function (v.rename new) = bounded function v := by
  simp [bounded]

@[simp] theorem power_rename (v w : Value) :
    power (v.rename new) (w.rename new) = power v w := by
  simp [power]

@[simp] theorem radians_rename (v : Value) : radians (v.rename new) = radians v := by
  simp [radians]

@[simp] theorem integral_rename (round : BinaryFraction → Int) (v : Value) :
    integral round (v.rename new) = integral round v := by
  simp [integral]

@[simp] theorem rounded_rename (v : Value) : rounded (v.rename new) = rounded v := by
  cases v <;> simp [rounded, Number.ofReal?, Value.kind]

@[simp] theorem scaleBy_rename (draw : Float) (v : Value) :
    scaleBy draw (v.rename new) = scaleBy draw v := by
  cases v <;> simp [scaleBy, Number.ofReal?, Value.kind]

@[simp] theorem successor_rename (v : Value) : successor (v.rename new) = successor v := by
  cases v <;> simp [successor, Number.ofReal?, Value.kind]

end Arithmetic

@[simp] theorem truncated_rename (v : Value) : truncated (v.rename new) = truncated v := by
  cases v <;> simp [truncated, Number.ofReal?, Value.kind]

/-! ## Equality -/

namespace Simulation

/-- The second answer to a question is the first, unless the first one is missing
for a reason that is excused. -/
inductive Finds (S : Simulation) {α : Type} : Option α → Option α → Prop where
  | excused {answer' : Option α} (h : S.excuses .tooDeep) : Finds S none answer'
  | same (answer : Option α) : Finds S answer answer

theorem finds_bind {α β : Type} {answer answer' : Option α} {next next' : α → Option β}
    (h : S.Finds answer answer') (hnext : ∀ a, S.Finds (next a) (next' a)) :
    S.Finds (answer >>= next) (answer' >>= next') := by
  cases h with
  | excused h => exact .excused h
  | same =>
    cases answer with
    | none => exact .same none
    | some a => exact hnext a

theorem Finds.orTooDeep {α : Type} {answer answer' : Option α} (h : S.Finds answer answer') :
    Attempt.Follows S id (.orTooDeep answer) (.orTooDeep answer') := by
  cases h with
  | excused h => exact .excused h
  | same => exact follows_silent (silent_orTooDeep answer)

@[simp] theorem new_beq (i j : Identity) : (S.new i == S.new j) = (i == j) := by
  rw [Bool.eq_iff_iff, beq_iff_eq, beq_iff_eq, S.injective.eq_iff]

end Simulation

namespace Value

open Simulation

theorem equalsAtom_rename (a b : Value) :
    equalsAtom (a.rename S.new) (b.rename S.new) = equalsAtom a b := by
  cases a <;> cases b <;> first | rfl | exact new_beq _ _

theorem finds_beq (i j : Identity) : S.Finds (some (i == j)) (some (S.new i == S.new j)) := by
  rw [new_beq]
  exact .same _

theorem finds_equalsItems {equals equals' : Value → Value → Option Bool}
    (h : ∀ a b, S.Finds (equals a b) (equals' (a.rename S.new) (b.rename S.new)))
    (as bs : List Value) :
    S.Finds (equalsItems equals as bs)
      (equalsItems equals' (as.map (rename S.new)) (bs.map (rename S.new))) := by
  induction as generalizing bs with
  | nil => cases bs <;> exact .same _
  | cons a as ih =>
    cases bs with
    | nil => exact .same _
    | cons b bs =>
      apply finds_bind (h a b)
      intro same
      cases same with
      | true => exact ih bs
      | false => exact .same _

theorem finds_alongTails {stop : Identity → Identity → Bool}
    {heads heads' ends ends' : Value → Value → Option Bool}
    (hstop : ∀ i j, stop (S.new i) (S.new j) = stop i j)
    (hheads : ∀ a b, S.Finds (heads a b) (heads' (a.rename S.new) (b.rename S.new)))
    (hends : ∀ a b, S.Finds (ends a b) (ends' (a.rename S.new) (b.rename S.new)))
    (a b : Value) :
    S.Finds (alongTails stop heads ends a b)
      (alongTails stop heads' ends' (a.rename S.new) (b.rename S.new)) := by
  fun_induction alongTails stop heads ends a b with
  | case1 i a as j b bs h =>
    rw [rename, rename, alongTails, hstop, if_pos h]
    exact .same _
  | case2 i a as j b bs h ih =>
    rw [rename, rename, alongTails, hstop, if_neg h]
    apply finds_bind (hheads a b)
    intro same
    cases same with
    | true => exact ih
    | false => exact .same _
  | case3 a b hpairs =>
    have hrenamed : alongTails stop heads' ends' (a.rename S.new) (b.rename S.new) =
        ends' (a.rename S.new) (b.rename S.new) := by
      cases a <;> cases b <;> first | rfl | exact (hpairs _ _ _ _ _ _ rfl rfl).elim
    rw [hrenamed]
    exact hends a b

theorem finds_equalsEnds {equals equals' : Value → Value → Option Bool}
    (h : ∀ a b, S.Finds (equals a b) (equals' (a.rename S.new) (b.rename S.new))) (a b : Value) :
    S.Finds (equalsEnds equals a b) (equalsEnds equals' (a.rename S.new) (b.rename S.new)) := by
  fun_cases equalsEnds equals a b with
  | case1 as bs hlength =>
    rw [rename, rename, equalsEnds, renameAll_eq_map, renameAll_eq_map, List.length_map,
      List.length_map, if_pos hlength]
    exact finds_equalsItems h as bs
  | case2 as bs hlength =>
    rw [rename, rename, equalsEnds, renameAll_eq_map, renameAll_eq_map, List.length_map,
      List.length_map, if_neg hlength]
    exact .same _
  | case3 a j b =>
    rw [rename, rename, equalsEnds, if_pos rfl]
    exact .same _
  | case4 i a j b hne =>
    rw [rename, rename, equalsEnds, if_neg (hne ∘ S.injective.eq_iff.1)]
    exact h a b
  | case5 i a b hb =>
    cases b <;> first | exact h _ _ | exact (hb _ _ rfl).elim
  | case6 a j b ha =>
    cases a <;> first | exact h _ _ | exact (ha _ _ rfl).elim
  | case7 a b hforms _ ha hb =>
    have hatom : equalsEnds equals' (a.rename S.new) (b.rename S.new) =
        some (equalsAtom (a.rename S.new) (b.rename S.new)) := by
      cases a <;> cases b <;>
        first
        | rfl
        | exact (ha _ _ rfl).elim
        | exact (hb _ _ rfl).elim
        | exact (hforms _ _ rfl rfl).elim
    rw [hatom, equalsAtom_rename]
    exact .same _

theorem finds_equals (hlimit : S.Further .tooDeep limit limit') (a b : Value) :
    S.Finds (equals limit a b) (equals limit' (a.rename S.new) (b.rename S.new)) := by
  induction hlimit generalizing a b with
  | zero h =>
    rcases h with rfl | h
    · exact .same _
    · exact .excused h
  | succ _ ih => exact finds_alongTails new_beq ih (finds_equalsEnds ih) a b

theorem finds_same (hlimit : S.Further .tooDeep limit limit') (a b : Value) :
    S.Finds (same limit a b) (same limit' (a.rename S.new) (b.rename S.new)) := by
  cases a <;> cases b <;>
    first
    | exact .same _
    | exact finds_beq _ _
    | exact finds_equals hlimit _ _

theorem finds_equal (hlimit : S.Further .tooDeep limit limit') (a b : Value) :
    S.Finds (equal limit a b) (equal limit' (a.rename S.new) (b.rename S.new)) := by
  induction hlimit generalizing a b with
  | zero h =>
    rcases h with rfl | h
    · exact .same _
    · exact .excused h
  | succ hlimit ih => exact finds_alongTails (fun _ _ => rfl) ih (finds_same hlimit) a b

end Value

/-! ## Order -/

namespace Comparison

theorem follows_holdsOfRows (operator : Comparison)
    {equals equals' holds holds' : Value → Value → Attempt Bool}
    (hequals : ∀ a b, Follows S id (equals a b) (equals' (a.rename S.new) (b.rename S.new)))
    (hholds : ∀ a b, Follows S id (holds a b) (holds' (a.rename S.new) (b.rename S.new)))
    (as bs : List Value) :
    Follows S id (operator.holdsOfRows equals holds as bs)
      (operator.holdsOfRows equals' holds' (as.map (Value.rename S.new))
        (bs.map (Value.rename S.new))) := by
  induction as generalizing bs with
  | nil =>
    cases bs with
    | nil => exact .ok _
    | cons b bs => exact follows_ok (by simp)
  | cons a as ih =>
    cases bs with
    | nil => exact follows_ok (by simp)
    | cons b bs =>
      apply follows_bind (hequals a b)
      intro same
      cases same with
      | true => exact ih bs
      | false =>
        show Follows S id (holds a.bare b.bare) (holds' _ _)
        rw [Value.bare_rename, Value.bare_rename]
        exact hholds a.bare b.bare

theorem follows_unordered (operator : Comparison) (a b : Value) :
    Follows S id (fault (.unordered operator.symbol a.kind b.kind) : Attempt Bool)
      (fault (.unordered operator.symbol (a.rename S.new).kind (b.rename S.new).kind)) := by
  rw [Value.kind_rename, Value.kind_rename]
  exact follows_fault

theorem follows_holds (operator : Comparison) (hlimit : S.Further .tooDeep limit limit')
    (a b : Value) :
    Follows S id (operator.holds limit a b)
      (operator.holds limit' (a.rename S.new) (b.rename S.new)) := by
  induction hlimit generalizing a b with
  | zero h => exact follows_limit h rfl (by rintro rfl; rfl)
  | @succ limit limit' hlimit ih =>
    have hforms : ∀ as bs, Follows S id (operator.holds (limit + 1) (.form as) (.form bs))
        (operator.holds (limit' + 1) ((Value.form as).rename S.new)
          ((Value.form bs).rename S.new)) := by
      intro as bs
      rw [Value.rename, Value.rename, Value.renameAll_eq_map, Value.renameAll_eq_map]
      exact follows_holdsOfRows operator (fun a b => (Value.finds_equals hlimit a b).orTooDeep)
        ih as bs
    cases a <;> cases b <;>
      first
      | exact follows_unordered operator _ _
      | exact .ok _
      | exact hforms _ _

end Comparison

theorem follows_chainHolds {test test' : Value → Value → Attempt Bool}
    (h : ∀ a b, Follows S id (test a b) (test' (a.rename S.new) (b.rename S.new)))
    (arguments : List Value) :
    Follows S id (chainHolds test arguments)
      (chainHolds test' (arguments.map (Value.rename S.new))) := by
  induction arguments with
  | nil => exact .ok true
  | cons a rest ih =>
    cases rest with
    | nil => exact .ok true
    | cons b rest =>
      apply follows_bind (h a b)
      intro passes
      cases passes with
      | true => exact ih
      | false => exact .ok false

theorem follows_bestOf {holds holds' : Value → Value → Attempt Bool}
    (h : ∀ a b, Follows S id (holds a b) (holds' (a.rename S.new) (b.rename S.new)))
    (first : Value) (rest : List Value) :
    Follows S (Value.rename S.new) (bestOf holds first rest)
      (bestOf holds' (first.rename S.new) (rest.map (Value.rename S.new))) := by
  apply follows_foldlM
  intro best candidate _
  apply follows_bind (h candidate best)
  intro passes
  cases passes <;> exact .ok _

theorem follows_candidates (v : Value) :
    Follows S (Prod.map (List.map (Value.rename S.new)) id) (candidates v)
      (candidates (v.rename S.new)) := by
  cases v with
  | string text => exact follows_ok (by simp)
  | form items => exact follows_ok (by simp)
  | pair cell head tail =>
    have hspine := @Value.spine_rename S.new (.pair cell head tail)
    have hproper := @Value.isProperList_rename S.new (.pair cell head tail)
    rw [Value.rename] at hspine hproper
    apply follows_ok
    rw [hspine, hproper]
    rfl
  | nil => exact .ok _
  | embedded identity value =>
    show Follows S _ (fault (.notIterable _)) (fault (.notIterable (Value.rename _ _).kind))
    rw [Value.kind_rename]
    exact follows_fault
  | undefined | bool | int | float | symbol | identifier | procedure | native | callback =>
    exact follows_fault

theorem follows_extremum {callee : String} {holds holds' : Value → Value → Attempt Bool}
    (h : ∀ a b, Follows S id (holds a b) (holds' (a.rename S.new) (b.rename S.new)))
    (arguments : List Value) :
    Follows S (Value.rename S.new) (extremum callee holds arguments)
      (extremum callee holds' (arguments.map (Value.rename S.new))) := by
  rcases arguments with _ | ⟨first, _ | ⟨second, rest⟩⟩
  · exact follows_fault
  · apply follows_bind (follows_candidates first)
    rintro ⟨_ | ⟨best, others⟩, complete⟩
    · exact follows_fault
    · apply follows_bind (follows_bestOf h best others)
      intro best
      cases complete with
      | true => exact .ok best
      | false => exact follows_wrongType
  · exact follows_bestOf h first (second :: rest)

/-! ## Lists -/

namespace Sequence

theorem follows_elements (h : S.Further .tooDeep limit limit') (v : Value) :
    Follows S (List.map (Value.rename S.new)) (elements limit v)
      (elements limit' (v.rename S.new)) := by
  have hother : Follows S (List.map (Value.rename S.new))
      (do wrongType (.notList (← v.inspected limit)))
      (do wrongType (.notList (← (v.rename S.new).inspected limit'))) :=
    follows_bind (Value.follows_inspected h v) fun _ => follows_wrongType
  cases v with
  | nil => exact .ok []
  | pair cell head tail =>
    have hitems := @Value.toList?_rename S.new (.pair cell head tail)
    rw [Value.rename] at hitems ⊢
    rw [elements, elements, hitems]
    cases (Value.pair cell head tail).toList? with
    | some items => exact .ok items
    | none => exact follows_wrongType
  | undefined | bool | int | float | string | symbol | identifier | form | embedded | procedure
  | native | callback => exact hother

theorem follows_length (h : S.Further .tooDeep limit limit') (v : Value) :
    Follows S (Value.rename S.new) (length limit v) (length limit' (v.rename S.new)) := by
  have hcount : Follows S (Value.rename S.new) (return count (← elements limit v).length)
      (return count (← elements limit' (v.rename S.new)).length) := by
    apply follows_bind (follows_elements h v)
    intro items
    rw [List.length_map]
    exact .ok _
  cases v with
  | string text => exact .ok _
  | nil | undefined | bool | int | float | symbol | identifier | form | embedded | pair
  | procedure | native | callback => exact hcount

@[simp] theorem index?_rename (v : Value) : index? (v.rename new) = index? v := by
  unfold index?
  rw [truncated_rename]
  cases v <;> rfl

theorem follows_indexText (h : S.Further .tooDeep limit limit') (v : Value) :
    Follows S id (indexText limit v) (indexText limit' (v.rename S.new)) := by
  have hother := Value.follows_inspected h v
  cases v with
  | float value => exact .ok _
  | nil | undefined | bool | int | string | symbol | identifier | form | embedded | pair
  | procedure | native | callback => exact hother

theorem follows_item (h : S.Further .tooDeep limit limit') (list index : Value) :
    Follows S (Value.rename S.new) (item limit list index)
      (item limit' (list.rename S.new) (index.rename S.new)) := by
  apply follows_bind (follows_elements h list)
  intro items
  rw [index?_rename]
  apply follows_bind (follows_silent (silent_index? index))
  intro place
  have hfound : (place.bind fun place => (items.map (Value.rename S.new))[place]?) =
      (place.bind fun place => items[place]?).map (Value.rename S.new) := by
    cases place <;> simp
  rw [id_eq, hfound]
  cases place.bind fun place => items[place]? with
  | some item => exact .ok item
  | none => exact follows_bind (follows_indexText h index) fun _ => follows_wrongType

theorem follows_last (h : S.Further .tooDeep limit limit') (list : Value) :
    Follows S (Value.rename S.new) (last limit list) (last limit' (list.rename S.new)) := by
  apply follows_bind (follows_elements h list)
  intro items
  rw [List.getLast?_map]
  cases items.getLast? with
  | some item => exact .ok item
  | none => exact follows_wrongType

theorem follows_elementsOfAll (h : S.Further .tooDeep limit limit') (lists : List Value) :
    Follows S (List.map (Value.rename S.new)) (elementsOfAll limit lists)
      (elementsOfAll limit' (lists.map (Value.rename S.new))) := by
  apply follows_bind (follows_mapM fun list _ => follows_elements h list)
  intro rows
  exact follows_ok List.map_flatten.symm

theorem follows_countUpFrom (h : S.Further .tooDeep limit limit') (stop : Value)
    {rounds rounds' : Nat} (hrounds : S.Further .tooLong rounds rounds') (before : List Value)
    (current : Value) :
    Follows S (List.map (Value.rename S.new)) (countUpFrom limit stop rounds before current)
      (countUpFrom limit' (stop.rename S.new) rounds' (before.map (Value.rename S.new))
        (current.rename S.new)) := by
  induction hrounds generalizing before current with
  | zero h => exact follows_limit h rfl (by rintro rfl; rfl)
  | succ _ ih =>
    apply follows_bind (Comparison.follows_holds .less h current stop)
    intro less
    cases less with
    | true =>
      show Follows S _ (Arithmetic.successor current >>= _) (Arithmetic.successor _ >>= _)
      rw [Arithmetic.successor_rename]
      exact follows_bind (follows_plain (Arithmetic.plain_successor current)) fun next =>
        ih (current :: before) next
    | false => exact follows_ok List.map_reverse.symm

theorem follows_countUp (h : S.Further .tooDeep limit limit') {rounds rounds' : Nat}
    (hrounds : S.Further .tooLong rounds rounds') (start stop : Value) :
    Follows S (List.map (Value.rename S.new)) (countUp limit rounds start stop)
      (countUp limit' rounds' (start.rename S.new) (stop.rename S.new)) :=
  follows_countUpFrom h stop hrounds [] start

end Sequence

end TinyLisp
