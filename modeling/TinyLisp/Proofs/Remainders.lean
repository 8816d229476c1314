import TinyLisp.Proofs.Calls
import TinyLisp.Proofs.ListAlgebra
import TinyLisp.Proofs.Resets
import TinyLisp.Settings

/-!
# Remainders of integers

On doubles that are integers the natives for remainders calculate with integers, and the
tests of the bundled prelude find out what is even.

There are four groups.

* `IsRemainder`: a remainder of a division, which is determined by its sign.
* `Arithmetic.remainder_of_isInt` and `Arithmetic.floorRemainder_of_isInt`: what the natives
  calculate.
* `bundledDefinitions`: the definitions that the bundled prelude consists of.
* `Store.TestsParity`: what the tests of the prelude depend on, and what they find out.
-/

namespace TinyLisp

variable {hosts : Hosts}

open Double (IsInt isInt_ofInt isInt_zero isInt_one isInt_two)

/-! ## Remainders -/

/-- The remainder of the division of `n` by `d` that has the sign of `guide` or is zero.  The
guide of the truncated remainder is `n` and that of the floored remainder is `d`. -/
structure IsRemainder (n d guide r : Int) : Prop where
  congruent : d ∣ n - r
  lt : r.natAbs < d.natAbs
  nonneg : 0 ≤ guide → 0 ≤ r
  nonpos : guide ≤ 0 → r ≤ 0

/-- One number is above zero and the other one below. -/
def OppositeSigns (m n : Int) : Prop :=
  0 < m ∧ n < 0 ∨ m < 0 ∧ 0 < n

namespace IsRemainder

variable {n d guide k l r r' : Int}

theorem tmod (n : Int) (h : d ≠ 0) : IsRemainder n d n (n.tmod d) where
  congruent := Int.dvd_self_sub_tmod
  lt := by
    rw [Int.natAbs_tmod]
    exact Nat.mod_lt _ (Int.natAbs_pos.2 h)
  nonneg := Int.tmod_nonneg d
  nonpos hn := by
    have hneg := Int.tmod_nonneg d (Int.neg_nonneg_of_nonpos hn)
    rw [Int.neg_tmod] at hneg
    omega

/-- The sign decides which of the two remainders it is. -/
theorem unique (h : IsRemainder n d guide r) (h' : IsRemainder n d guide r') : r = r' := by
  have hdvd : d ∣ r - r' := by
    have hsub := Int.dvd_sub h'.congruent h.congruent
    rwa [show n - r' - (n - r) = r - r' by omega] at hsub
  have hlt : (r - r').natAbs < d.natAbs := by
    have hbound := h.lt
    have hbound' := h'.lt
    rcases Int.le_total 0 guide with hguide | hguide
    · have hr := h.nonneg hguide
      have hr' := h'.nonneg hguide
      omega
    · have hr := h.nonpos hguide
      have hr' := h'.nonpos hguide
      omega
  have hzero := Int.eq_zero_of_dvd_of_natAbs_lt_natAbs hdvd hlt
  omega

/-- A truncated remainder is brought to the sign of the divisor by adding the divisor before
another division. -/
theorem add_tmod (h : IsRemainder n d n k) (hne : d ≠ 0) :
    IsRemainder n d d ((k + d).tmod d) := by
  have hrest := tmod (k + d) hne
  have hlt := h.lt
  refine ⟨?_, hrest.lt, fun hd => hrest.nonneg (by omega), fun hd => hrest.nonpos (by omega)⟩
  have hsum := Int.dvd_add h.congruent (Int.dvd_sub hrest.congruent (Int.dvd_refl d))
  rwa [show n - k + (k + d - (k + d).tmod d - d) = n - (k + d).tmod d by omega] at hsum

/-- The floored remainder is the truncated one unless that has the sign that it must not have. -/
theorem floored_eq (h : IsRemainder n d n k) (h' : IsRemainder n d d l)
    (hsigns : ¬ OppositeSigns k d) : l = k := by
  refine h'.unique ⟨h.congruent, h.lt, ?_, ?_⟩
  all_goals
    have hlt := h.lt
    unfold OppositeSigns at hsigns
    omega

theorem floored_eq_add (h : IsRemainder n d n k) (h' : IsRemainder n d d l)
    (hsigns : OppositeSigns k d) : l = k + d := by
  refine h'.unique ⟨?_, ?_, ?_, ?_⟩
  · have hsub := Int.dvd_sub h.congruent (Int.dvd_refl d)
    rwa [show n - k - d = n - (k + d) by omega] at hsub
  all_goals
    have hlt := h.lt
    unfold OppositeSigns at hsigns
    omega

/-- The two remainders differ by the divisor exactly if they must differ. -/
theorem floored_eq_add_iff (h : IsRemainder n d n k) (h' : IsRemainder n d d l) :
    l = k + d ↔ OppositeSigns k d := by
  constructor
  · intro hadd
    by_contra hsigns
    have heq := floored_eq h h' hsigns
    have hlt := h.lt
    omega
  · exact floored_eq_add h h'

end IsRemainder

/-! ## The natives -/

namespace Arithmetic

variable {a b : Float} {n d : Int}

theorem remainder_of_isInt (ha : IsInt a n) (hb : IsInt b d) (hn : n.natAbs ≤ 2 ^ 53)
    (hne : d ≠ 0) :
    ∃ r, remainder (.float a) (.float b) = .ok r ∧ IsInt r (n.tmod d) := by
  obtain ⟨r, hr, hint⟩ := ha.remainder? hb hn hne
  refine ⟨r, ?_, hint⟩
  show Attempt.orFault .outsideDomain (Double.remainder? a b) = _
  rw [hr]
  rfl

theorem floorRemainder_of_isInt (ha : IsInt a n) (hb : IsInt b d) (hn : n.natAbs ≤ 2 ^ 52)
    (hd : d.natAbs ≤ 2 ^ 52) (hne : d ≠ 0) :
    ∃ r, floorRemainder (.float a) (.float b) = .ok r ∧ IsInt r ((n.tmod d + d).tmod d) := by
  obtain ⟨k, hk, hkint⟩ := remainder_of_isInt ha hb (by omega) hne
  have hlt := (IsRemainder.tmod n hne).lt
  obtain ⟨r, hr, hint⟩ := (hkint.add hb (by omega)).remainder? hb (by omega) hne
  refine ⟨r, ?_, hint⟩
  show (do remainderOfDoubles ((← remainder (.float a) (.float b)) + b) b) = _
  rw [hk]
  show Attempt.orFault .outsideDomain (Double.remainder? (k + b) b) = _
  rw [hr]
  rfl

end Arithmetic

theorem call_remainderOf (m : Machine) (name callee : String)
    {rest : Number → Number → Attempt Float} {a b r : Float}
    (h : rest (.float a) (.float b) = .ok r) :
    (remainderOf m name callee rest).call [.float a, .float b] = pure (.float r) := by
  show Run.ofAttempt (do return .float (← rest (.float a) (.float b)) : Attempt Value) = _
  rw [h]
  rfl

/-! ## The bundled prelude -/

/-- The call of a named procedure in source. -/
def named (name : String) (operands : List Value) : Value :=
  .form (.identifier name :: operands)

/-- The body of a test that compares the remainder of a division by two. -/
def parityBody (rest : Float) : Value :=
  named "=" [named "mod" [.identifier "x", .float 2.0], .float rest]

/-- No name has two of the standard natives. -/
theorem Standard.exists_native {root : ScopeId} {name : String} {v : Value} {operation : Primitive}
    (h : Standard root name v) (hmem : (name, operation) ∈ standardPrimitives) :
    ∃ i, v = .native i name (.primitive operation) := by
  have hother : name ∈ standardPrimitives.map (·.1) := List.mem_map.2 ⟨_, hmem, rfl⟩
  cases h with
  | primitive i hmem' =>
    have hnames : (standardPrimitives.map (·.1)).Nodup := by decide
    have hsame := List.inj_on_of_nodup_map hnames hmem hmem' rfl
    simp only [Prod.mk.injEq, true_and] at hsame
    exact ⟨i, by rw [hsame]⟩
  | pi | print | setGlobal => exact absurd hother (by decide)

namespace Session

/-- The definitions of the bundled prelude. -/
def bundledDefinitions : List Definition :=
  let x := Value.identifier "x"
  let define (name : String) (body : Value) : Definition := ⟨name, ["x"], [body]⟩
  [define "cadr" (named "car" [named "cdr" [x]]),
    define "caddr" (named "car" [named "cdr" [named "cdr" [x]]]),
    define "square" (named "*" [x, x]),
    define "cube" (named "*" [x, x, x]),
    define "zero?" (named "=" [x, .float 0.0]),
    define "positive?" (named ">" [x, .float 0.0]),
    define "negative?" (named "<" [x, .float 0.0]),
    define "even?" (parityBody 0.0),
    define "odd?" (parityBody 1.0)]

set_option maxRecDepth 4000 in
theorem readAll_bundledPrelude (limit : Nat) :
    readAll (limit + 3) (tokenize bundledPrelude) =
      (bundledDefinitions.map Definition.form, none) := by
  have htext : bundledPrelude.toList = _ := String.toList_ofList
  rw [tokenize, htext]
  rfl

/-- What the bundled prelude binds. -/
def bundledTable (root : ScopeId) : Table := fun name v =>
  ∃ definition ∈ bundledDefinitions, definition.entry root name v

theorem fills_bundledPrelude (hosts : Hosts) (rounds depth : Nat) (root : ScopeId) :
    Run.Fills (bundledTable root) root
      ((Prelude.files [some bundledPrelude]).load (Machine.ofDepth hosts rounds (depth + 3))
        root) := by
  apply Definition.fills_load (Machine.ofDepth hosts rounds (depth + 2)) root
  rw [Machine.depth_ofDepth]
  exact readAll_bundledPrelude depth

/-- The bundled prelude binds each name of a definition to its procedure. -/
theorem exists_procedure_of_bundledTable {root : ScopeId} {definition : Definition} {v : Value}
    (hmem : definition ∈ bundledDefinitions) (hv : bundledTable root definition.name v) :
    ∃ i, v = .procedure i definition.parameters definition.body root := by
  obtain ⟨other, hother, hname, i, rfl⟩ := hv
  have hnames : (bundledDefinitions.map (·.name)).Nodup := by decide
  obtain rfl := List.inj_on_of_nodup_map hnames hother hmem hname.symm
  exact ⟨i, rfl⟩

end Session

/-! ## Parity -/

/-- In the root the tests of the bundled prelude have their procedures, and the names in their
bodies have the standard natives. -/
structure Store.TestsParity (s : Store) : Prop where
  rooted : s.Rooted
  even : ∃ i, s.local? s.root "even?" = some (.procedure i ["x"] [parityBody 0.0] s.root)
  odd : ∃ i, s.local? s.root "odd?" = some (.procedure i ["x"] [parityBody 1.0] s.root)
  remainder : ∃ i, s.local? s.root "mod" = some (.native i "mod" (.primitive .floorModulo))
  equality : ∃ i, s.local? s.root "=" = some (.native i "=" (.primitive .numericEqual))

/-- After a reset with the bundled prelude the tests of parity are there, unless a function has
been registered under a name that they depend on. -/
theorem Session.testsParity_reset [hosts.Coupled] (rounds depth : Nat) {session : Session}
    (hsound : session.store.Sound) (hnames : (session.registrations.map (·.name)).Nodup)
    (hprelude : session.prelude = .files [some bundledPrelude])
    (hmod : Registered.find? "mod" session.registrations = none)
    (hequal : Registered.find? "=" session.registrations = none) :
    ∃ reset : Session,
      (Request.reset rounds (depth + 3)).perform (Machine.ofDepth hosts) session = .ok () reset ∧
      reset.store.TestsParity := by
  obtain ⟨reset, hreset, hrooted, hbound⟩ :=
    reset_over_table rounds (depth + 3) hsound hnames fun root => by
      rw [hprelude]
      exact fills_bundledPrelude hosts rounds depth root
  have hprocedure {definition : Definition} (hmem : definition ∈ bundledDefinitions) :
      ∃ i, reset.store.local? reset.store.root definition.name =
        some (.procedure i definition.parameters definition.body reset.store.root) := by
    rcases hbound definition.name with ⟨v, hv, hlocal⟩ | ⟨hnone, -⟩
    · obtain ⟨i, rfl⟩ := exists_procedure_of_bundledTable hmem hv
      exact ⟨i, hlocal⟩
    · exact absurd ⟨definition, hmem, rfl, 0, rfl⟩ (hnone _)
  have hnative {name : String} {operation : Primitive}
      (hmem : (name, operation) ∈ standardPrimitives)
      (hdefined : name ∉ bundledDefinitions.map (·.name))
      (hregistered : Registered.find? name session.registrations = none) :
      ∃ i, reset.store.local? reset.store.root name =
        some (.native i name (.primitive operation)) := by
    rcases hbound name with ⟨v, ⟨definition, hdefinition, rfl, -⟩, -⟩ | ⟨-, hrestored⟩
    · exact absurd (List.mem_map.2 ⟨definition, hdefinition, rfl⟩) hdefined
    · rw [hregistered] at hrestored
      generalize reset.store.local? reset.store.root name = found at hrestored
      cases hrestored with
      | standard hv =>
        obtain ⟨i, rfl⟩ := hv.exists_native hmem
        exact ⟨i, rfl⟩
      | nothing hnone => exact absurd (.primitive 0 hmem) (hnone _)
  refine ⟨reset, hreset, hrooted, ?_, ?_, ?_, ?_⟩
  · have heven : ⟨"even?", ["x"], [parityBody 0.0]⟩ ∈ bundledDefinitions := by
      simp [bundledDefinitions]
    exact hprocedure heven
  · have hodd : ⟨"odd?", ["x"], [parityBody 1.0]⟩ ∈ bundledDefinitions := by
      simp [bundledDefinitions]
    exact hprocedure hodd
  · exact hnative (by decide) (by decide) hmod
  · exact hnative (by decide) (by decide) hequal

namespace Machine

variable {m : Machine} {scope : ScopeId} {s : Store}

/-- Operands that leave the store alone. -/
theorem mapM_of_forall₂ {operands arguments : List Value}
    (h : List.Forall₂ (fun e v => m.eval scope e s = .ok v s) operands arguments) :
    operands.mapM (m.eval scope) s = .ok arguments s := by
  induction h with
  | nil => rfl
  | cons hfirst _ ih =>
    rw [List.mapM_cons, Run.bind_of_ok hfirst, Run.bind_of_ok ih]
    rfl

/-- The call of a name that is no keyword invokes what the name means. -/
theorem eval_named {name : String} {operands arguments : List Value} {f : Value}
    (hname : Keyword.ofName? name = none) (hf : m.eval scope (.identifier name) s = .ok f s)
    (hcallable : f.isCallable = true)
    (h : List.Forall₂ (fun e v => m.eval scope e s = .ok v s) operands arguments) :
    (above hosts m).eval scope (named name operands) s = m.invoke f arguments s := by
  have hkeyword : keyword? (.identifier name) = none := hname
  have hform : (above hosts m).eval scope (named name operands) =
      m.application scope (.identifier name) operands := by
    show m.evalForm scope (.identifier name) operands = _
    rw [evalForm, hkeyword]
  rw [hform, application, Run.bind_of_ok hf, Run.bind_of_ok (mapM_of_forall₂ h), if_pos hcallable]

/-- The body of a test of parity, in the scope of a call. -/
theorem eval_parityBody {a rest : Float} {n k : Int} (ha : IsInt a n) (hn : n.natAbs ≤ 2 ^ 52)
    (hrest : IsInt rest k) {i j : Identity}
    (hx : (above hosts m).eval scope (.identifier "x") s = .ok (.float a) s)
    (hmod : (above hosts m).eval scope (.identifier "mod") s =
      .ok (.native i "mod" (.primitive .floorModulo)) s)
    (hequal : (above hosts (above hosts m)).eval scope (.identifier "=") s =
      .ok (.native j "=" (.primitive .numericEqual)) s) :
    (above hosts (above hosts (above hosts m))).eval scope (parityBody rest) s =
      .ok (.bool (decide (n % 2 = k))) s := by
  obtain ⟨r, hr, hint⟩ := Arithmetic.floorRemainder_of_isInt ha isInt_two hn (by decide) (by decide)
  have hrest' : (n.tmod 2 + 2).tmod 2 = n % 2 := by
    have hfloored := (IsRemainder.tmod n (d := 2) (by decide)).add_tmod (by decide)
    have hlt := hfloored.lt
    have hnonneg := hfloored.nonneg (by decide)
    have hdvd := hfloored.congruent
    omega
  rw [hrest'] at hint
  have hremainder : (above hosts (above hosts m)).eval scope
      (named "mod" [.identifier "x", .float 2.0]) s = .ok (.float r) s := by
    rw [eval_named (by decide) hmod rfl (.cons hx (.cons rfl .nil))]
    apply Run.inNative_of_ok
    show (remainderOf m "mod" "floor_mod" Arithmetic.floorRemainder).call _ s = _
    rw [call_remainderOf m _ _ hr]
    rfl
  have hbool : (r == rest) = decide (n % 2 = k) := by
    rw [Bool.eq_iff_iff, hint.beq_iff hrest, decide_eq_true_iff]
  rw [parityBody, eval_named (by decide) hequal rfl (.cons hremainder (.cons rfl .nil)), ← hbool]
  apply Run.inNative_of_ok
  have hequals :
      (Value.float r).equals (above hosts m).depth (.float rest) = some (r == rest) := rfl
  show Run.ofAttempt
    (do return .bool (← chainHolds _ [.float r, .float rest]) : Attempt Value) s = _
  rw [chainHolds, hequals]
  cases r == rest <;> rfl

/-- A test of parity finds out whether the remainder of the division by two is its own. -/
theorem eval_parityTest {a rest : Float} {n k : Int} (ha : IsInt a n) (hn : n.natAbs ≤ 2 ^ 52)
    (hrest : IsInt rest k) {name : String} (hname : Keyword.ofName? name = none) {i : Identity}
    (h : s.TestsParity)
    (htest : s.local? s.root name = some (.procedure i ["x"] [parityBody rest] s.root)) :
    (above hosts (above hosts (above hosts (above hosts (above hosts m))))).eval s.root
        (named name [.float a]) s =
      .ok (.bool (decide (n % 2 = k))) (s.addScope (callScope ["x"] [.float a] s.root)).2 := by
  obtain ⟨j, hremainder⟩ := h.remainder
  obtain ⟨l, hequality⟩ := h.equality
  have hearlier := h.rooted.earlier
  have hread {name : String} {v : Value} (hv : s.local? s.root name = some v) :
      s.Refers s.root name s.root v := Store.refers_of_owner? (h.rooted.owner?_root hv) hv
  have hparameter : Receives ["x"] [.float a] "x" (.float a) :=
    ⟨0, rfl, rfl, fun k hk hlt => absurd hlt (Nat.not_lt_of_le hk)⟩
  have hother {name : String} {v : Value} (hne : "x" ≠ name) (hv : s.local? s.root name = some v) :
      (s.addScope (callScope ["x"] [.float a] s.root)).2.Refers s.scopes.size name s.root v := by
    refine refers_of_misses hearlier h.rooted.root_lt ?_ (h.rooted.owner?_root hv) hv
    intro k hk
    obtain rfl : k = 0 := Nat.lt_one_iff.1 hk
    simpa using hne
  have hbody := eval_parityBody (m := m) ha hn hrest
    ((refers_of_receives hearlier h.rooted.root_lt hparameter).read hosts _)
    ((hother (by decide) hremainder).read hosts _) ((hother (by decide) hequality).read hosts _)
  rw [eval_named hname ((hread htest).read hosts _) rfl (.cons rfl .nil)]
  show (above hosts (above hosts (above hosts m))).evalBody s.scopes.size [parityBody rest]
    (s.addScope (callScope ["x"] [.float a] s.root)).2 = _
  rw [evalBody, Run.lastOf, List.foldlM_cons, Run.bind_of_ok hbody]
  rfl

end Machine

/-- What the natives and the tests make of integers up to `2 ^ 52`.  One native gives the
truncated remainder and the other one the floored remainder.  These differ by the divisor where
the truncated remainder and the divisor have opposite signs, and are the same number elsewhere.
A reset with the bundled prelude puts the tests of parity into the root, and wherever they are
there, one of them is true of an integer and the other one is false. -/
theorem integral_remainders (hosts : Hosts) [hosts.Coupled] (rounds depth : Nat)
    (scope : ScopeId) (natives : Natives) {a b : Float} {n d : Int} (ha : IsInt a n)
    (hn : n.natAbs ≤ 2 ^ 52) (hb : IsInt b d) (hd : d.natAbs ≤ 2 ^ 52) (hne : d ≠ 0)
    {session : Session} (hsound : session.store.Sound)
    (hnames : (session.registrations.map (·.name)).Nodup)
    (hprelude : session.prelude = .files [some bundledPrelude])
    (hmod : Registered.find? "mod" session.registrations = none)
    (hequal : Registered.find? "=" session.registrations = none) :
    (∃ (x y : Float) (k l : Int),
      (∀ s, (Machine.ofDepth hosts rounds (depth + 2)).eval scope
        (natives.on .modulo [.float a, .float b]) s = .ok (.float x) s) ∧
      (∀ s, (Machine.ofDepth hosts rounds (depth + 2)).eval scope
        (natives.on .floorModulo [.float a, .float b]) s = .ok (.float y) s) ∧
      IsInt x k ∧ IsRemainder n d n k ∧ IsInt y l ∧ IsRemainder n d d l ∧
      (l = k + d ↔ OppositeSigns k d) ∧ (¬ OppositeSigns k d → (x == y) = true)) ∧
    (∃ reset : Session,
      (Session.Request.reset rounds (depth + 3)).perform (Machine.ofDepth hosts) session =
        .ok () reset ∧ reset.store.TestsParity) ∧
    ∀ s : Store, s.TestsParity → ∃ t,
      (Machine.ofDepth hosts rounds (depth + 5)).eval s.root (named "even?" [.float a]) s =
        .ok (.bool (decide (2 ∣ n))) t ∧
      (Machine.ofDepth hosts rounds (depth + 5)).eval s.root (named "odd?" [.float a]) s =
        .ok (.bool (decide (¬ 2 ∣ n))) t := by
  refine ⟨?_, Session.testsParity_reset rounds depth hsound hnames hprelude hmod hequal, ?_⟩
  · obtain ⟨x, hx, hxint⟩ := Arithmetic.remainder_of_isInt ha hb (by omega) hne
    obtain ⟨y, hy, hyint⟩ := Arithmetic.floorRemainder_of_isInt ha hb hn hd hne
    have htruncated := IsRemainder.tmod n hne
    have hfloored := htruncated.add_tmod hne
    refine ⟨x, y, _, _, fun s => ?_, fun s => ?_, hxint, htruncated, hyint, hfloored,
      htruncated.floored_eq_add_iff hfloored, fun hsigns => ?_⟩
    · have hcall := call_remainderOf (Machine.ofDepth hosts rounds depth) "modulo" "modulo" hx
      exact (congrFun (Machine.eval_on _ scope natives .modulo _) s).trans
        (Run.inNative_of_ok _ (congrFun hcall s))
    · have hcall := call_remainderOf (Machine.ofDepth hosts rounds depth) "mod" "floor_mod" hy
      exact (congrFun (Machine.eval_on _ scope natives .floorModulo _) s).trans
        (Run.inNative_of_ok _ (congrFun hcall s))
    · exact (hxint.beq_iff hyint).2 (htruncated.floored_eq hfloored hsigns).symm
  · intro s htests
    obtain ⟨i, heven⟩ := htests.even
    obtain ⟨j, hodd⟩ := htests.odd
    have hdvd : (2 ∣ n) = (n % 2 = 0) := by
      rw [Int.dvd_iff_emod_eq_zero]
    have hndvd : (¬ 2 ∣ n) = (n % 2 = 1) := by
      rw [Int.two_dvd_ne_zero]
    simp only [hndvd]
    simp only [hdvd]
    exact ⟨_, Machine.eval_parityTest ha hn isInt_zero (by decide) htests heven,
      Machine.eval_parityTest ha hn isInt_one (by decide) htests hodd⟩

/-- The remainders of the division of `-7` by `3` are `-1` and `2`, and `-7` is odd. -/
theorem integral_remainders_neg_seven :
    let natives : Natives := ⟨fun _ => 0, fun _ => "native"⟩
    let session := Session.new (.files [some bundledPrelude]) []
    let m := Machine.ofDepth usualHosts 1 8
    usualHosts.Coupled ∧ IsInt (-7.0) (-7) ∧ IsInt 3.0 3 ∧ session.store.Sound ∧
      (session.registrations.map (·.name)).Nodup ∧
      (∃ x y : Float, IsInt x (-1) ∧ IsInt y 2 ∧ ∀ s,
        (Machine.ofDepth usualHosts 1 5).eval 0 (natives.on .modulo [.float (-7.0), .float 3.0]) s =
          .ok (.float x) s ∧
        (Machine.ofDepth usualHosts 1 5).eval 0
            (natives.on .floorModulo [.float (-7.0), .float 3.0]) s =
          .ok (.float y) s) ∧
      ∃ reset t,
        (Session.Request.reset 1 6).perform (Machine.ofDepth usualHosts) session = .ok () reset ∧
        m.eval reset.store.root (named "even?" [.float (-7.0)]) reset.store =
          .ok (.bool false) t ∧
        m.eval reset.store.root (named "odd?" [.float (-7.0)]) reset.store =
          .ok (.bool true) t := by
  intro natives session m
  have ha : IsInt (-7.0) (-7) := by
    rw [show (-7.0 : Float) = .ofModel (.ofInt (-7)) by decide]
    exact isInt_ofInt (by decide)
  have hb : IsInt 3.0 3 := by
    rw [show (3.0 : Float) = .ofModel (.ofInt 3) by decide]
    exact isInt_ofInt (by decide)
  have hsound : session.store.Sound := Store.sound_empty.reserve 0
  have hnames : (session.registrations.map (·.name)).Nodup := List.nodup_nil
  obtain ⟨⟨x, y, k, l, hx, hy, hxint, hk, hyint, hl, -, -⟩, ⟨reset, hreset, hparity⟩, htests⟩ :=
    integral_remainders usualHosts 1 3 0 natives ha (by decide) hb (by decide) (by decide) hsound
      hnames rfl rfl rfl
  obtain ⟨t, heven, hodd⟩ := htests _ hparity
  obtain rfl : k = -1 := by
    have hdvd := hk.congruent
    have hlt := hk.lt
    have hnonpos := hk.nonpos (by decide)
    omega
  obtain rfl : l = 2 := by
    have hdvd := hl.congruent
    have hlt := hl.lt
    have hnonneg := hl.nonneg (by decide)
    omega
  exact ⟨inferInstance, ha, hb, hsound, hnames, ⟨x, y, hxint, hyint, fun s => ⟨hx s, hy s⟩⟩,
    reset, t, hreset, heven, hodd⟩

end TinyLisp
