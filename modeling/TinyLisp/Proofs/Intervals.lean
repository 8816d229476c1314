import TinyLisp.Proofs.ListAlgebra
import TinyLisp.Session

/-!
# Intervals of integers

The native `range` counts with doubles.  Between integers up to `2 ^ 53` it stops where it
should, with all the integers in between and no others.

There are three groups.

* `IsInterval`: a row of doubles that stands for the integers of an interval, and what
  follows from it for the order of the row and for two rows one behind the other.
* `countUpFrom_eq`: the loop, with the number of its rounds.
* `Machine.range_is_interval`: the native among the other natives on lists.
  `Machine.range_limits` shows what doubles cannot tell: a count beyond `2 ^ 53`, and which
  zero it was.
-/

namespace TinyLisp

variable {hosts : Hosts}

open Double (IsInt isInt_negativeZero isInt_ofInt isInt_one isInt_two)

/-! ## Intervals -/

/-- The doubles stand for the integers from `start` on that are below `stop`, in order. -/
structure IsInterval (start stop : Int) (xs : List Float) : Prop where
  length : xs.length = (stop - start).toNat
  item : ∀ (i : Nat) x, xs[i]? = some x → IsInt x (start + i)

namespace IsInterval

variable {start middle stop : Int} {xs ys : List Float}

/-- The order of the doubles and of the bounds is the order of the integers. -/
theorem bounds (h : IsInterval start stop xs) {a b : Float} (ha : IsInt a start)
    (hb : IsInt b stop) {x : Float} (hx : x ∈ xs) : a ≤ x ∧ x < b := by
  obtain ⟨i, hi⟩ := List.mem_iff_getElem?.1 hx
  obtain ⟨hlt, -⟩ := List.getElem?_eq_some_iff.1 hi
  have hlength := h.length
  have hint := h.item i x hi
  exact ⟨(ha.le_iff hint).2 (by omega), (hint.lt_iff hb).2 (by omega)⟩

theorem increasing (h : IsInterval start stop xs) : xs.Pairwise (· < ·) := by
  rw [List.pairwise_iff_getElem]
  intro i j hi hj hij
  have hi := h.item i _ (List.getElem?_eq_getElem hi)
  have hj := h.item j _ (List.getElem?_eq_getElem hj)
  exact (hi.lt_iff hj).2 (by omega)

theorem append (h : IsInterval start middle xs) (h' : IsInterval middle stop ys)
    (hle : start ≤ middle) (hle' : middle ≤ stop) : IsInterval start stop (xs ++ ys) where
  length := by
    rw [List.length_append, h.length, h'.length]
    omega
  item i x hx := by
    have hlength := h.length
    rcases Nat.lt_or_ge i xs.length with hi | hi
    · rw [List.getElem?_append_left hi] at hx
      exact h.item i x hx
    · rw [List.getElem?_append_right hi] at hx
      have hint := h'.item _ x hx
      rwa [show middle + ((i - xs.length : Nat) : Int) = start + i by omega] at hint

/-- Two rows for the same interval hold the same numbers. -/
theorem forall₂_beq (h : IsInterval start stop xs) (h' : IsInterval start stop ys) :
    List.Forall₂ (fun x y => (x == y) = true) xs ys := by
  rw [List.forall₂_iff_get]
  refine ⟨h.length.trans h'.length.symm, fun i hi hi' => ?_⟩
  have hx := h.item i _ (List.getElem?_eq_getElem hi)
  have hy := h'.item i _ (List.getElem?_eq_getElem hi')
  exact (hx.beq_iff hy).2 rfl

end IsInterval

/-! ## The loop -/

/-- Some doubles from `x` on, in steps of one. -/
def countingFrom (x : Float) : Nat → List Float
  | 0 => []
  | count + 1 => x :: countingFrom (x + 1.0) count

theorem length_countingFrom (x : Float) (count : Nat) :
    (countingFrom x count).length = count := by
  induction count generalizing x with
  | zero => rfl
  | succ count ih => rw [countingFrom, List.length_cons, ih]

/-- Up to `2 ^ 53` every step goes on to the next integer. -/
theorem isInt_of_countingFrom {x y : Float} {n : Int} {count i : Nat} (hx : IsInt x n)
    (hlow : -2 ^ 53 ≤ n) (hhigh : n + count ≤ 2 ^ 53) (hy : (countingFrom x count)[i]? = some y) :
    IsInt y (n + i) := by
  induction count generalizing x n i with
  | zero => cases hy
  | succ count ih =>
    cases i with
    | zero =>
      obtain rfl : x = y := Option.some.inj hy
      simpa using hx
    | succ i =>
      have hnext := ih (hx.add isInt_one (by omega)) (by omega) (by omega) hy
      rwa [show n + 1 + (i : Int) = n + (i + 1 : Nat) by omega] at hnext

theorem isInterval_countingFrom {a : Float} {start stop : Int} (ha : IsInt a start)
    (hstart : start.natAbs ≤ 2 ^ 53) (hstop : stop.natAbs ≤ 2 ^ 53) :
    IsInterval start stop (countingFrom a (stop - start).toNat) where
  length := length_countingFrom a _
  item i x hx := by
    by_cases hle : start ≤ stop
    · exact isInt_of_countingFrom ha (by omega) (by omega) hx
    · rw [show (stop - start).toNat = 0 by omega] at hx
      cases hx

namespace Sequence

theorem less_holds {a b : Float} {m n : Int} (ha : IsInt a m) (hb : IsInt b n) (depth : Nat) :
    Comparison.less.holds (depth + 1) (.float a) (.float b) = .ok (decide (m < n)) := by
  show Except.ok ((Double.compare? a b).any Comparison.less.accepts) = _
  rw [Double.compare?]
  rcases lt_trichotomy m n with h | h | h
  · rw [if_pos ((ha.lt_iff hb).2 h), decide_eq_true h]
    rfl
  · rw [if_neg (mt (ha.lt_iff hb).1 h.not_lt), if_neg (mt (hb.lt_iff ha).1 h.not_gt),
      if_pos ((ha.beq_iff hb).2 h), decide_eq_false h.not_lt]
    rfl
  · rw [if_neg (mt (ha.lt_iff hb).1 h.not_gt), if_pos ((hb.lt_iff ha).2 h),
      decide_eq_false h.not_gt]
    rfl

/-- The loop needs one round for each integer below the stop and one to find out that it has
come there. -/
theorem countUpFrom_eq {a b : Float} {m n : Int} (ha : IsInt a m) (hb : IsInt b n)
    (hm : -2 ^ 53 ≤ m) (hn : n ≤ 2 ^ 53) (depth rounds : Nat) (before : List Value) :
    countUpFrom (depth + 1) (.float b) rounds before (.float a) =
      if (n - m).toNat < rounds then
        .ok (before.reverse ++ (countingFrom a (n - m).toNat).map .float)
      else .error .tooLong := by
  induction rounds generalizing a m before with
  | zero => rw [if_neg (Nat.not_lt_zero _), countUpFrom]
  | succ rounds ih =>
    rw [countUpFrom, less_holds ha hb]
    by_cases hlt : m < n
    · have hnext := ih (ha.add isInt_one (by omega)) (by omega) (.float a :: before)
      rw [show (n - m).toNat = (n - (m + 1)).toNat + 1 by omega, countingFrom]
      simpa [bind, Except.bind, hlt, Arithmetic.successor, Number.ofReal?] using hnext
    · rw [show (n - m).toNat = 0 by omega]
      simp [bind, Except.bind, hlt, countingFrom, pure, Except.pure]

theorem countUp_eq {a b : Float} {start stop : Int} (ha : IsInt a start) (hb : IsInt b stop)
    (hstart : start.natAbs ≤ 2 ^ 53) (hstop : stop.natAbs ≤ 2 ^ 53) (depth rounds : Nat) :
    countUp (depth + 1) rounds (.float a) (.float b) =
      if (stop - start).toNat < rounds then
        .ok ((countingFrom a (stop - start).toNat).map .float)
      else .error .tooLong :=
  countUpFrom_eq ha hb (by omega) (by omega) depth rounds []

end Sequence

/-! ## The native -/

namespace Machine

variable {m : Machine} {scope : ScopeId} {natives : Natives}

section

variable {a b : Value} {items : List Value}

theorem eval_range (h : Sequence.countUp m.depth m.rounds a b = .ok items) (s : Store) :
    (above hosts (above hosts m)).eval scope (natives.on .range [a, b]) s =
      .ok (.chain s.nextIdentity items .nil) (s.reserve items.length).2 := by
  have hcall : (Primitive.range.native m).call [a, b] = Run.newList items := by
    show (do Run.newList (← Run.ofAttempt (Sequence.countUp m.depth m.rounds a b)) : Run Value) = _
    rw [h]
    rfl
  rw [eval_on, hcall]
  rfl

theorem lists_range (h : Sequence.countUp m.depth m.rounds a b = .ok items) :
    (above hosts (above hosts m)).Lists scope (natives.on .range [a, b]) items :=
  fun s => ⟨_, items.length, eval_range h s, Value.toList?_chain _ _⟩

end

/-- The count of the integers in an interval is the difference of its bounds. -/
theorem count_eq_sub {a b : Float} {start stop : Int} (ha : IsInt a start) (hb : IsInt b stop) :
    Sequence.count (stop - start).toNat = .float (if a < b then b - a else 0.0) := by
  rw [Sequence.count]
  by_cases hlt : start < stop
  · rw [if_pos ((ha.lt_iff hb).2 hlt), hb.sub_eq ha hlt.ne', Int.toNat_of_nonneg (by omega)]
  · rw [if_neg (mt (ha.lt_iff hb).1 hlt), show (stop - start).toNat = 0 by omega]
    rfl

/-- The double of the count is the length itself where that is not larger than `2 ^ 53`. -/
theorem isInt_length {a b : Float} {start stop : Int} (ha : IsInt a start) (hb : IsInt b stop)
    (h : stop - start ≤ 2 ^ 53) : IsInt (if a < b then b - a else 0.0) (max 0 (stop - start)) := by
  have hcount := count_eq_sub ha hb
  rw [Sequence.count, Value.float.injEq] at hcount
  rw [← hcount, show max 0 (stop - start) = ((stop - start).toNat : Int) by omega]
  exact isInt_ofInt (by omega)

/-- What `range` and the other natives make of the interval from `a` to `b`, with the row `xs`
of its elements. -/
structure RangeLaws (m : Machine) (scope : ScopeId) (natives : Natives) (a b : Float)
    (start stop : Int) (xs : List Float) : Prop where
  /-- The value is a proper list of the elements in new pairs. -/
  value : ∀ s, m.eval scope (natives.on .range [.float a, .float b]) s =
      .ok (.chain s.nextIdentity (xs.map .float) .nil) (s.reserve xs.length).2
  elements : m.Lists scope (natives.on .range [.float a, .float b]) (xs.map .float)
  nil_iff : ∀ s v t, m.eval scope (natives.on .range [.float a, .float b]) s = .ok v t →
    (v = .nil ↔ stop ≤ start)
  length : m.Gives scope (natives.call .length [natives.on .range [.float a, .float b]])
    (.float (if a < b then b - a else 0.0))
  /-- Longer rows have their lengths rounded. -/
  length_isInt : stop - start ≤ 2 ^ 53 →
    IsInt (if a < b then b - a else 0.0) (max 0 (stop - start))
  append : ∀ c middle, IsInt c middle → start ≤ middle → middle ≤ stop →
    ∃ ys : List Float, IsInterval start stop ys ∧
      List.Forall₂ (fun y x => (y == x) = true) ys xs ∧
      m.Lists scope (natives.call .append
        [natives.on .range [.float a, .float c], natives.on .range [.float c, .float b]])
        (ys.map .float)

theorem rangeLaws {a b : Float} {start stop : Int} (ha : IsInt a start) (hb : IsInt b stop)
    (hstart : start.natAbs ≤ 2 ^ 53) (hstop : stop.natAbs ≤ 2 ^ 53) {depth : Nat}
    (hdepth : m.depth = depth + 1) (hrounds : (stop - start).toNat < m.rounds) :
    (above hosts (above hosts (above hosts m))).RangeLaws scope natives a b start stop
      (countingFrom a (stop - start).toNat) := by
  have hinterval := isInterval_countingFrom ha hstart hstop
  -- the interval itself, at the level of the call and at that of an operand
  have hcount {c d : Float} {first last : Int} (hc : IsInt c first) (hd : IsInt d last)
      (hfirst : first.natAbs ≤ 2 ^ 53) (hlast : last.natAbs ≤ 2 ^ 53)
      (hle : (last - first).toNat < m.rounds) (extra : Nat) :
      Sequence.countUp (m.depth + extra) m.rounds (.float c) (.float d) =
        .ok ((countingFrom c (last - first).toNat).map .float) := by
    rw [hdepth, Nat.add_right_comm, Sequence.countUp_eq hc hd hfirst hlast, if_pos hle]
  have hrange (s : Store) :
      (above hosts (above hosts (above hosts m))).eval scope
          (natives.on .range [.float a, .float b]) s =
        .ok (.chain s.nextIdentity ((countingFrom a (stop - start).toNat).map .float) .nil)
          (s.reserve (countingFrom a (stop - start).toNat).length).2 := by
    rw [eval_range (hcount ha hb hstart hstop hrounds 1), List.length_map]
  refine ⟨hrange, lists_range (hcount ha hb hstart hstop hrounds 1), ?_, ?_,
    isInt_length ha hb, ?_⟩
  · intro s v t hv
    rw [hrange] at hv
    cases hv
    have hlength := hinterval.length
    generalize countingFrom a (stop - start).toNat = xs at hlength
    cases xs with
    | nil => exact iff_of_true rfl (by simp at hlength; omega)
    | cons x xs => exact iff_of_false nofun (by simp at hlength; omega)
  · rw [← count_eq_sub ha hb, ← hinterval.length, ← List.length_map Value.float]
    exact gives_length (lists_range (hcount ha hb hstart hstop hrounds 0))
  · intro c middle hc hle hle'
    have hmiddle : middle.natAbs ≤ 2 ^ 53 := by omega
    have hfront := isInterval_countingFrom ha hstart hmiddle
    have hback := isInterval_countingFrom hc hmiddle hstop
    have hboth := hfront.append hback hle hle'
    refine ⟨_, hboth, hboth.forall₂_beq hinterval, ?_⟩
    rw [List.map_append]
    exact lists_append (lists_range (hcount ha hc hstart (by omega) (by omega) 0))
      (lists_range (hcount hc hb (by omega) hstop (by omega) 0))

/-- Between integers up to `2 ^ 53` the native `range` gives the doubles of the integers from the
first one on that are below the second one.  Its loop goes on for one round for each of them and
stops in the next one. -/
theorem range_is_interval (hosts : Hosts) (rounds depth : Nat) (scope : ScopeId)
    (natives : Natives) {a b : Float} {start stop : Int} (ha : IsInt a start) (hb : IsInt b stop)
    (hstart : start.natAbs ≤ 2 ^ 53) (hstop : stop.natAbs ≤ 2 ^ 53) :
    ∃ xs : List Float, IsInterval start stop xs ∧ (∀ x ∈ xs, a ≤ x ∧ x < b) ∧
      xs.Pairwise (· < ·) ∧
      (∀ rounds, Sequence.countUp (depth + 1) rounds (.float a) (.float b) =
        if (stop - start).toNat < rounds then .ok (xs.map .float) else .error .tooLong) ∧
      ((stop - start).toNat < rounds →
        (ofDepth hosts rounds (depth + 4)).RangeLaws scope natives a b start stop xs) := by
  have hinterval := isInterval_countingFrom ha hstart hstop
  refine ⟨_, hinterval, fun x hx => hinterval.bounds ha hb hx, hinterval.increasing,
    Sequence.countUp_eq ha hb hstart hstop depth, fun hrounds => ?_⟩
  rw [← @rounds_ofDepth hosts rounds (depth + 1)] at hrounds
  exact rangeLaws ha hb hstart hstop (depth_ofDepth rounds (depth + 1)) hrounds

/-- The rounds of the usual machine are enough for every such interval. -/
example : 2 ^ 54 < usualRounds := by decide

/-- The integers from `-1` on that are below `2` are three, and the last one is in the interval
from `1` on. -/
theorem range_is_interval_of_three :
    let natives : Natives := ⟨fun _ => 0, fun _ => "native"⟩
    let m := ofDepth usualHosts 9 4
    IsInt (-1.0) (-1) ∧ IsInt 1.0 1 ∧ IsInt 2.0 2 ∧ ∃ xs : List Float,
      xs.length = 3 ∧ IsInterval (-1) 2 xs ∧
      m.Lists 0 (natives.on .range [.float (-1.0), .float 2.0]) (xs.map .float) ∧
      ∃ ys : List Float, List.Forall₂ (fun y x => (y == x) = true) ys xs ∧
        m.Lists 0 (natives.call .append
          [natives.on .range [.float (-1.0), .float 1.0],
            natives.on .range [.float 1.0, .float 2.0]]) (ys.map .float) := by
  intro natives m
  have ha : IsInt (-1.0) (-1) := by
    rw [show (-1.0 : Float) = .ofModel (.ofInt (-1)) by decide]
    exact isInt_ofInt (by decide)
  obtain ⟨xs, hxs, -, -, -, hlaws⟩ :=
    range_is_interval usualHosts 9 0 0 natives ha isInt_two (by decide) (by decide)
  obtain ⟨ys, -, hsame, happend⟩ :=
    (hlaws (by decide)).append 1.0 1 isInt_one (by decide) (by decide)
  exact ⟨ha, isInt_one, isInt_two, xs, hxs.length, hxs, (hlaws (by decide)).elements, ys, hsame,
    happend⟩

/-- The interval from `-1` to `2 ^ 53` has more integers than its length says, which is rounded.
Two intervals that meet in the negative zero have this double among their elements; the interval
without the cut has the other zero. -/
theorem range_limits :
    let natives : Natives := ⟨fun _ => 0, fun _ => "native"⟩
    let stop : Float := 9007199254740992.0
    (IsInt (-1.0) (-1) ∧ IsInt stop (2 ^ 53) ∧ ∃ x : Float,
      (ofDepth usualHosts usualRounds 4).Gives 0
        (natives.call .length [natives.on .range [.float (-1.0), .float stop]]) (.float x) ∧
      IsInt x (2 ^ 53) ∧ ¬ IsInt x (max 0 (2 ^ 53 - (-1)))) ∧
    (IsInt (-0.0) 0 ∧ (-0.0 : Float) ≠ 0.0 ∧
      (ofDepth usualHosts 9 4).Lists 0 (natives.on .range [.float (-1.0), .float 1.0])
        [.float (-1.0), .float 0.0] ∧
      (ofDepth usualHosts 9 4).Lists 0 (natives.call .append
          [natives.on .range [.float (-1.0), .float (-0.0)],
            natives.on .range [.float (-0.0), .float 1.0]])
        [.float (-1.0), .float (-0.0)]) := by
  intro natives stop
  have hlow : IsInt (-1.0) (-1) := by
    rw [show (-1.0 : Float) = .ofModel (.ofInt (-1)) by decide]
    exact isInt_ofInt (by decide)
  have hhigh : IsInt stop (2 ^ 53) := by
    rw [show stop = .ofModel (.ofInt (2 ^ 53)) by decide +kernel]
    exact isInt_ofInt (by decide)
  refine ⟨⟨hlow, hhigh, stop, ?_, hhigh, fun h => ?_⟩, isInt_negativeZero, by decide, ?_, ?_⟩
  · have hrounds : (2 ^ 53 - (-1) : Int).toNat < (ofDepth usualHosts usualRounds 1).rounds := by
      rw [rounds_ofDepth]
      decide
    have hlaws :
        (ofDepth usualHosts usualRounds 4).RangeLaws 0 natives (-1.0) stop (-1) (2 ^ 53) _ :=
      rangeLaws hlow hhigh (by decide) (by decide) (depth_ofDepth usualRounds 1) hrounds
    have hlength := hlaws.length
    rwa [show (if -1.0 < stop then stop - -1.0 else 0.0) = stop by decide +kernel] at hlength
  · have hsame := (hhigh.beq_iff h).1 ((hhigh.beq_iff hhigh).2 rfl)
    omega
  · exact lists_range (Sequence.countUp_eq hlow isInt_one (by decide) (by decide) 1 9)
  · have hfront : (ofDepth usualHosts 9 3).Lists 0
        (natives.on .range [.float (-1.0), .float (-0.0)]) [.float (-1.0)] :=
      lists_range (Sequence.countUp_eq hlow isInt_negativeZero (by decide) (by decide) 0 9)
    have hback : (ofDepth usualHosts 9 3).Lists 0
        (natives.on .range [.float (-0.0), .float 1.0]) [.float (-0.0)] :=
      lists_range (Sequence.countUp_eq isInt_negativeZero isInt_one (by decide) (by decide) 0 9)
    exact lists_append hfront hback

end Machine

end TinyLisp
