import TinyLisp.Value.Printer

/-!
# What can be written

The printers stop at a part that lies too deep and at an integer that is too long.
There is no other reason why a value cannot be written.

There are six groups.

* Rows of attempts: `Attempt.exists_mapM_iff` and `Attempt.exists_of_mem_mapM`.
* `Attempt.StopsFor`: attempts that fail for some reasons only, with one rule for each way of
  putting attempts together.
* `shownHeight` and `height`: how deep the two printers go.  The elements of a
  proper list stand at one height for `write`, but each tail counts for `inspect`.
* `integers`: the integers that are written.
* `exists_inspect_iff`, `exists_write_iff` and `exists_text_iff`: the values that have a
  text.
* `stopsFor_inspect` and `stopsFor_write`: the reasons why the others have none.
-/

namespace TinyLisp

/-! ## Rows of attempts -/

namespace Attempt

variable {α β : Type}

/-- Two attempts in a row end with a result when both do. -/
theorem bind_eq_ok_iff {first : Attempt α} {next : α → Attempt β} {result : β} :
    (first >>= next) = .ok result ↔ ∃ a, first = .ok a ∧ next a = .ok result := by
  cases first with
  | ok a =>
    constructor
    · intro h
      exact ⟨a, rfl, h⟩
    · rintro ⟨_, ⟨⟩, h⟩
      exact h
  | error stop =>
    constructor
    · intro h
      cases h
    · rintro ⟨_, h, _⟩
      cases h

theorem exists_bind_ok_iff {first : Attempt α} {next : α → Attempt β} :
    (∃ result, (first >>= next) = .ok result) ↔
      ∃ a, first = .ok a ∧ ∃ result, next a = .ok result := by
  constructor
  · rintro ⟨result, h⟩
    obtain ⟨a, ha, hnext⟩ := bind_eq_ok_iff.1 h
    exact ⟨a, ha, result, hnext⟩
  · rintro ⟨a, ha, result, hnext⟩
    exact ⟨result, bind_eq_ok_iff.2 ⟨a, ha, hnext⟩⟩

/-- What is done with a result does not matter, if it cannot fail. -/
theorem exists_bind_pure_iff {first : Attempt α} {f : α → β} :
    (∃ result, (do return f (← first) : Attempt β) = .ok result) ↔ ∃ a, first = .ok a := by
  rw [exists_bind_ok_iff]
  exact exists_congr fun a => and_iff_left ⟨f a, rfl⟩

/-- Two attempts whose results are put together. -/
theorem exists_bind_bind_pure_iff {γ : Type} {first : Attempt α} {second : Attempt β}
    {f : α → β → γ} :
    (∃ result, (do return f (← first) (← second) : Attempt γ) = .ok result) ↔
      (∃ a, first = .ok a) ∧ ∃ b, second = .ok b := by
  rw [exists_bind_ok_iff, exists_and_right.symm]
  exact exists_congr fun a => and_congr_right fun _ => exists_bind_pure_iff

/-- A row of attempts has results when each of them has one. -/
theorem exists_mapM_iff {f : α → Attempt β} {items : List α} :
    (∃ results, items.mapM f = .ok results) ↔ ∀ item ∈ items, ∃ result, f item = .ok result := by
  induction items with
  | nil =>
    constructor
    · intro _ item hitem
      cases hitem
    · exact fun _ => ⟨[], rfl⟩
  | cons item items ih =>
    rw [List.mapM_cons, exists_bind_ok_iff, List.forall_mem_cons, ← ih]
    constructor
    · rintro ⟨first, hfirst, hrest⟩
      obtain ⟨rest, hrest, -⟩ := exists_bind_ok_iff.1 hrest
      exact ⟨⟨first, hfirst⟩, rest, hrest⟩
    · rintro ⟨⟨first, hfirst⟩, rest, hrest⟩
      exact ⟨first, hfirst, exists_bind_ok_iff.2 ⟨rest, hrest, first :: rest, rfl⟩⟩

/-- Every result of a row is the result of some item. -/
theorem exists_of_mem_mapM {f : α → Attempt β} {items : List α} {results : List β}
    (h : items.mapM f = .ok results) {result : β} (hresult : result ∈ results) :
    ∃ item ∈ items, f item = .ok result := by
  induction items generalizing results with
  | nil =>
    cases h
    cases hresult
  | cons item items ih =>
    rw [List.mapM_cons] at h
    obtain ⟨first, hfirst, h⟩ := bind_eq_ok_iff.1 h
    obtain ⟨rest, hrest, heq⟩ := bind_eq_ok_iff.1 h
    cases heq
    rcases List.mem_cons.1 hresult with rfl | hresult
    · exact ⟨item, List.mem_cons_self, hfirst⟩
    · obtain ⟨other, hother, hf⟩ := ih hrest hresult
      exact ⟨other, List.mem_cons_of_mem _ hother, hf⟩

/-! ## Reasons to stop -/

/-- The attempt fails for allowed reasons only. -/
def StopsFor (allowed : Stop → Prop) (attempt : Attempt α) : Prop :=
  ∀ stop, attempt = .error stop → allowed stop

variable {allowed : Stop → Prop} {attempt : Attempt α}

theorem stopsFor_ok (a : α) : StopsFor allowed (.ok a) :=
  nofun

theorem stopsFor_error {stop : Stop} (h : allowed stop) :
    StopsFor allowed (.error stop : Attempt α) := by
  intro other hother
  cases hother
  exact h

theorem StopsFor.bind {next : α → Attempt β} (h : attempt.StopsFor allowed)
    (hnext : ∀ a, attempt = .ok a → (next a).StopsFor allowed) :
    (attempt >>= next).StopsFor allowed := by
  cases attempt with
  | ok a => exact hnext a rfl
  | error stop => exact stopsFor_error (h stop rfl)

theorem StopsFor.map (h : attempt.StopsFor allowed) (f : α → β) :
    StopsFor allowed (attempt.map f) := by
  cases attempt with
  | ok a => exact stopsFor_ok (f a)
  | error stop => exact stopsFor_error (h stop rfl)

theorem stopsFor_mapM {f : α → Attempt β} {items : List α}
    (h : ∀ item ∈ items, (f item).StopsFor allowed) : StopsFor allowed (items.mapM f) := by
  induction items with
  | nil => exact stopsFor_ok []
  | cons item items ih =>
    rw [List.mapM_cons]
    apply (h item List.mem_cons_self).bind
    intro result _
    apply (ih fun item hitem => h item (List.mem_cons_of_mem _ hitem)).bind
    exact fun results _ => stopsFor_ok (result :: results)

theorem stopsFor_foldlM {f : β → α → Attempt β} (h : ∀ total item, (f total item).StopsFor allowed)
    (items : List α) (total : β) : StopsFor allowed (items.foldlM f total) := by
  induction items generalizing total with
  | nil => exact stopsFor_ok total
  | cons item items ih =>
    rw [List.foldlM_cons]
    exact (h total item).bind fun total _ => ih total

end Attempt

namespace Value

/-! ## Heights -/

mutual

/-- How deep diagnostics go into a value. -/
def shownHeight : Value → Nat
  | form items => shownHeightOfAll items + 1
  | embedded _ value => value.shownHeight + 1
  | pair _ head tail => max head.shownHeight tail.shownHeight + 1
  | _ => 1

/-- The largest of several such heights. -/
def shownHeightOfAll : List Value → Nat
  | [] => 0
  | item :: items => max item.shownHeight (shownHeightOfAll items)

end

theorem shownHeightOfAll_le {items : List Value} {limit : Nat} :
    shownHeightOfAll items ≤ limit ↔ ∀ item ∈ items, item.shownHeight ≤ limit := by
  induction items with
  | nil => simp [shownHeightOfAll]
  | cons item items ih => rw [shownHeightOfAll, Nat.max_le, ih, List.forall_mem_cons]

/-- How deep the language's own notation goes into a value. -/
def height : Value → Nat
  | form items => (form items).shownHeight
  | embedded _ value => value.height + 1
  | pair _ head tail =>
    if tail.isProperList then max (head.height + 1) tail.height
    else max head.height tail.height + 1
  | _ => 1

theorem shownHeight_pos (value : Value) : 0 < value.shownHeight := by
  cases value <;> simp [shownHeight]

theorem height_pos (value : Value) : 0 < value.height := by
  cases value with
  | pair cell head tail =>
    rw [height]
    split <;> omega
  | form items => exact shownHeight_pos (form items)
  | embedded identity value => simp [height]
  | nil | undefined | bool | int | float | string | symbol | identifier | procedure | native
  | callback => simp [height]

theorem toList?_eq_nil {value : Value} (h : value.toList? = some []) : value = nil := by
  cases value with
  | nil => rfl
  | pair cell head tail =>
    rw [toList?_pair] at h
    cases htail : tail.toList? <;> simp [htail] at h
  | undefined | bool | int | float | string | symbol | identifier | form | embedded | procedure
  | native | callback => cases h

theorem toList?_eq_cons {value item : Value} {items : List Value}
    (h : value.toList? = some (item :: items)) :
    ∃ cell tail, value = pair cell item tail ∧ tail.toList? = some items := by
  cases value with
  | pair cell head tail =>
    rw [toList?_pair, Option.map_eq_some_iff] at h
    obtain ⟨items', htail, heq⟩ := h
    cases heq
    exact ⟨cell, tail, rfl, htail⟩
  | nil | undefined | bool | int | float | string | symbol | identifier | form | embedded
  | procedure | native | callback => cases h

/-- The elements of a proper list all stand one level below it. -/
theorem height_le_of_toList? {value : Value} {items : List Value} (h : value.toList? = some items)
    {limit : Nat} : value.height ≤ limit + 1 ↔ ∀ item ∈ items, item.height ≤ limit := by
  induction items generalizing value with
  | nil =>
    obtain rfl := toList?_eq_nil h
    simp [height]
  | cons item items ih =>
    obtain ⟨cell, tail, rfl, htail⟩ := toList?_eq_cons h
    have hproper : tail.isProperList = true := isProperList_iff.2 ⟨items, htail⟩
    rw [height, if_pos hproper, Nat.max_le, ih htail, List.forall_mem_cons, Nat.succ_le_succ_iff]

/-! ## Integers -/

mutual

/-- The integers that are written of a value. -/
def integers : Value → List Int
  | int value => [value]
  | form items => integersOfAll items
  | embedded _ value => value.integers
  | pair _ head tail => head.integers ++ tail.integers
  | _ => []

/-- The integers that are written of several values. -/
def integersOfAll : List Value → List Int
  | [] => []
  | item :: items => item.integers ++ integersOfAll items

end

/-- No integer of the value is too long to be written. -/
def Short (value : Value) : Prop :=
  ∀ n ∈ value.integers, n.natAbs < Nat.pow 10 longestInteger

theorem short_form {items : List Value} : (form items).Short ↔ ∀ item ∈ items, item.Short := by
  show (∀ n ∈ integersOfAll items, _) ↔ _
  induction items with
  | nil => simp [integersOfAll]
  | cons item items ih =>
    rw [integersOfAll, List.forall_mem_append, ih, List.forall_mem_cons]
    rfl

theorem short_pair {cell : Identity} {head tail : Value} :
    (pair cell head tail).Short ↔ head.Short ∧ tail.Short :=
  List.forall_mem_append

theorem short_of_toList? {value : Value} {items : List Value} (h : value.toList? = some items) :
    value.Short ↔ ∀ item ∈ items, item.Short := by
  induction items generalizing value with
  | nil =>
    obtain rfl := toList?_eq_nil h
    simp [Short, integers]
  | cons item items ih =>
    obtain ⟨cell, tail, rfl, htail⟩ := toList?_eq_cons h
    rw [short_pair, ih htail, List.forall_mem_cons]

theorem exists_writeInteger_iff {n : Int} :
    (∃ text, writeInteger n = .ok text) ↔ (int n).Short := by
  unfold writeInteger Short
  rw [integers, List.forall_mem_singleton]
  split
  · rename_i hshort
    exact iff_of_true ⟨_, rfl⟩ hshort
  · rename_i hlong
    exact iff_of_false (fun ⟨_, h⟩ => by cases h) hlong

/-! ## The values that have a text -/

theorem exists_inspect_iff {value : Value} {limit : Nat} :
    (∃ text, value.inspect limit = .ok text) ↔ value.shownHeight ≤ limit ∧ value.Short := by
  induction limit generalizing value with
  | zero =>
    have hpos := value.shownHeight_pos
    exact iff_of_false (fun ⟨_, h⟩ => by cases h) fun ⟨h, _⟩ => by omega
  | succ limit ih =>
    cases value with
    | int value =>
      have hheight : (int value).shownHeight ≤ limit + 1 := Nat.le_add_left 1 limit
      rw [and_iff_right hheight]
      exact exists_writeInteger_iff
    | form items =>
      rw [shownHeight, Nat.succ_le_succ_iff, shownHeightOfAll_le, short_form, inspect,
        Attempt.exists_bind_pure_iff, Attempt.exists_mapM_iff]
      simp only [ih, imp_and, forall_and]
    | embedded identity value =>
      rw [shownHeight, Nat.succ_le_succ_iff]
      exact ih
    | pair cell head tail =>
      rw [shownHeight, Nat.succ_le_succ_iff, Nat.max_le, short_pair, and_and_and_comm, ← ih, ← ih]
      exact Attempt.exists_bind_bind_pure_iff
    | nil | undefined | bool | float | string | symbol | identifier | procedure | native
    | callback => exact iff_of_true ⟨_, rfl⟩ ⟨by simp [shownHeight], by simp [Short, integers]⟩

theorem exists_write_iff {value : Value} {limit : Nat} :
    (∃ text, value.write limit = .ok text) ↔ value.height ≤ limit ∧ value.Short := by
  induction limit generalizing value with
  | zero =>
    have hpos := value.height_pos
    exact iff_of_false (fun ⟨_, h⟩ => by cases h) fun ⟨h, _⟩ => by omega
  | succ limit ih =>
    cases value with
    | int value =>
      have hheight : (int value).height ≤ limit + 1 := Nat.le_add_left 1 limit
      rw [and_iff_right hheight]
      exact exists_writeInteger_iff
    | form items => exact exists_inspect_iff
    | embedded identity value =>
      rw [height, Nat.succ_le_succ_iff]
      exact ih
    | pair cell head tail =>
      rw [write]
      cases hitems : (pair cell head tail).toList? with
      | some items =>
        rw [height_le_of_toList? hitems, short_of_toList? hitems, Attempt.exists_bind_pure_iff,
          Attempt.exists_mapM_iff]
        simp only [ih, imp_and, forall_and]
      | none =>
        have hproper : (pair cell head tail).isProperList = false := toList?_eq_none_iff.1 hitems
        rw [isProperList] at hproper
        rw [height, if_neg (by simp [hproper]), Nat.succ_le_succ_iff, Nat.max_le, short_pair,
          and_and_and_comm, ← ih, ← ih]
        exact Attempt.exists_bind_bind_pure_iff
    | nil | undefined | bool | float | string | symbol | identifier | procedure | native
    | callback => exact iff_of_true ⟨_, rfl⟩ ⟨by simp [height], by simp [Short, integers]⟩

theorem exists_text_iff {value : Value} {limit : Nat} :
    (∃ text, value.text limit = .ok text) ↔ value.height ≤ limit ∧ value.Short := by
  rw [← exists_write_iff, text]
  cases value.write limit with
  | ok text => exact iff_of_true ⟨_, rfl⟩ ⟨text, rfl⟩
  | error stop => exact iff_of_false (fun ⟨_, h⟩ => by cases h) fun ⟨_, h⟩ => by cases h

/-! ## The values that have no text -/

section

open Attempt

variable {allowed : Stop → Prop} (hlong : allowed (.fault .longInteger)) {limit : Nat}
  {value : Value}

include hlong

theorem stopsFor_writeInteger (n : Int) : (writeInteger n).StopsFor allowed := by
  unfold writeInteger
  generalize Nat.pow 10 longestInteger = bound
  split
  · exact stopsFor_ok _
  · exact stopsFor_error hlong

/-- A value that is not too high has no text only because of a long integer. -/
theorem stopsFor_inspect (h : allowed .tooDeep ∨ value.shownHeight ≤ limit) :
    (value.inspect limit).StopsFor allowed := by
  induction limit generalizing value with
  | zero => exact stopsFor_error (h.resolve_right (Nat.not_le_of_lt value.shownHeight_pos))
  | succ limit ih =>
    cases value with
    | int value =>
      simp only [inspect]
      exact stopsFor_writeInteger hlong value
    | form items =>
      rw [shownHeight, Nat.succ_le_succ_iff, shownHeightOfAll_le] at h
      have hitems : ∀ item ∈ items, (item.inspect limit).StopsFor allowed :=
        fun item hitem => ih (h.imp_right fun h => h item hitem)
      exact (stopsFor_mapM hitems).bind fun _ _ => stopsFor_ok _
    | embedded identity value =>
      rw [shownHeight, Nat.succ_le_succ_iff] at h
      exact ih h
    | pair cell head tail =>
      rw [shownHeight, Nat.succ_le_succ_iff, Nat.max_le, or_and_left] at h
      exact (ih h.1).bind fun _ _ => (ih h.2).bind fun _ _ => stopsFor_ok _
    | nil | undefined | bool | float | string | symbol | identifier | procedure | native
    | callback => exact stopsFor_ok _

theorem stopsFor_write (h : allowed .tooDeep ∨ value.height ≤ limit) :
    (value.write limit).StopsFor allowed := by
  induction limit generalizing value with
  | zero => exact stopsFor_error (h.resolve_right (Nat.not_le_of_lt value.height_pos))
  | succ limit ih =>
    cases value with
    | int value =>
      simp only [write]
      exact stopsFor_writeInteger hlong value
    | form items => exact stopsFor_inspect hlong h
    | embedded identity value =>
      rw [height, Nat.succ_le_succ_iff] at h
      exact ih h
    | pair cell head tail =>
      rw [write]
      cases hitems : (pair cell head tail).toList? with
      | some items =>
        rw [height_le_of_toList? hitems] at h
        have htexts : ∀ item ∈ items, (item.write limit).StopsFor allowed :=
          fun item hitem => ih (h.imp_right fun h => h item hitem)
        exact (stopsFor_mapM htexts).bind fun _ _ => stopsFor_ok _
      | none =>
        have hproper : (pair cell head tail).isProperList = false := toList?_eq_none_iff.1 hitems
        rw [isProperList] at hproper
        rw [height, if_neg (by simp [hproper]), Nat.succ_le_succ_iff, Nat.max_le,
          or_and_left] at h
        exact (ih h.1).bind fun _ _ => (ih h.2).bind fun _ _ => stopsFor_ok _
    | nil | undefined | bool | float | string | symbol | identifier | procedure | native
    | callback => exact stopsFor_ok _

end

end Value

end TinyLisp
