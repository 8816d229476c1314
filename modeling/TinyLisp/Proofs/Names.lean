import TinyLisp.Proofs.RoundTrip
import TinyLisp.Proofs.Sessions

/-!
# Names that read back

No session ever comes to hold a name that is not read as itself.  Names come from
source alone, where white space at the ends is taken away and a numeral is no name.

There are five groups.

* `trim_trim` and `isBlankText_of_trim`: white space at the ends.
* `Value.names` and `Value.Legible`: the names in a value, all of which read back.
* `Store.Legible`: stores that bind legible values only.
* `legibility`: the discipline of handing out no other values.
* `Session.legible_after` and `Session.legible_eval`: any requests leave a session
  legible, and so is every value that is computed in it.
-/

namespace TinyLisp

variable {hosts : Hosts}

/-! ## White space at the ends -/

theorem dropWhile_dropWhile (text : List Char) :
    (text.dropWhile isBlank).dropWhile isBlank = text.dropWhile isBlank := by
  induction text with
  | nil => rfl
  | cons c text ih =>
    by_cases hc : isBlank c = true
    · rw [List.dropWhile_cons_of_pos hc, ih]
    · rw [List.dropWhile_cons_of_neg hc, List.dropWhile_cons_of_neg hc]

/-- A text that does not begin with white space. -/
theorem dropWhile_eq_self_of_append {front rest : List Char}
    (h : (front ++ rest).dropWhile isBlank = front ++ rest) : front.dropWhile isBlank = front := by
  match front with
  | [] => rfl
  | c :: front =>
    by_cases hc : isBlank c = true
    · have hlength := congrArg List.length h
      have hle := (List.dropWhile_sublist (l := front ++ rest) isBlank).length_le
      rw [List.cons_append, List.dropWhile_cons_of_pos hc, List.length_cons] at hlength
      omega
    · rw [List.dropWhile_cons_of_neg hc]

theorem trim_trim (text : List Char) : trim (trim text) = trim text := by
  have hfront : (trim text).dropWhile isBlank = trim text := by
    have hback : (text.dropWhile isBlank).reverse =
      (text.dropWhile isBlank).reverse.takeWhile isBlank ++ (trim text).reverse := by
      rw [trim, List.reverse_reverse, List.takeWhile_append_dropWhile]
    have hsplit : text.dropWhile isBlank =
        trim text ++ ((text.dropWhile isBlank).reverse.takeWhile isBlank).reverse := by
      have hsplit := congrArg List.reverse hback
      rwa [List.reverse_reverse, List.reverse_append, List.reverse_reverse] at hsplit
    have hself := dropWhile_dropWhile text
    rw [hsplit] at hself
    exact dropWhile_eq_self_of_append hself
  rw [trim, hfront, trim, List.reverse_reverse, dropWhile_dropWhile]

theorem isBlankText_of_trim {text : List Char} (h : trim text = []) : isBlankText text = true := by
  rw [trim, List.reverse_eq_nil_iff, List.dropWhile_eq_nil_iff] at h
  have hnil : (text.dropWhile isBlank).dropWhile isBlank = [] :=
    List.dropWhile_eq_nil_iff.2 fun c hc => h c (List.mem_reverse.2 hc)
  rw [dropWhile_dropWhile, List.dropWhile_eq_nil_iff] at hnil
  exact List.all_eq_true.2 hnil

/-! ## The names in a value -/

namespace Value

mutual

/-- The names in a value, of symbols and of identifiers, also in the bodies of procedures and
behind callbacks. -/
def names : Value → List String
  | symbol name | identifier name => [name]
  | form items => namesOfAll items
  | embedded _ value => value.names
  | pair _ head tail => head.names ++ tail.names
  | procedure _ _ body _ => namesOfAll body
  | callback _ target => target.names
  | _ => []

/-- The names in several values. -/
def namesOfAll : List Value → List String
  | [] => []
  | item :: items => item.names ++ namesOfAll items

end

/-- Every name in the value is one that reads back. -/
def Legible (value : Value) : Prop :=
  ∀ name ∈ value.names, (identifier name).ReadsBack

theorem legible_ofAll {items : List Value} :
    (∀ name ∈ namesOfAll items, (identifier name).ReadsBack) ↔ ∀ item ∈ items, item.Legible := by
  induction items with
  | nil => simp [namesOfAll]
  | cons item items ih =>
    rw [namesOfAll, List.forall_mem_append, ih, List.forall_mem_cons]
    rfl

theorem legible_of_names_eq_nil {value : Value} (h : value.names = []) : value.Legible := by
  intro name hname
  rw [h] at hname
  cases hname

theorem legible_form {items : List Value} :
    (form items).Legible ↔ ∀ item ∈ items, item.Legible :=
  legible_ofAll

theorem legible_pair {cell : Identity} {head tail : Value} :
    (pair cell head tail).Legible ↔ head.Legible ∧ tail.Legible :=
  List.forall_mem_append

/-- An atom that is no number is a name without white space at its ends, so it reads back. -/
theorem legible_readAtom {text : String} (h : isBlankText text.toList = false) :
    (readAtom text).Legible := by
  cases hnumber : parseNumber? text.toList with
  | some number =>
    rw [readAtom_eq_float.2 hnumber]
    exact legible_of_names_eq_nil rfl
  | none =>
    rw [readAtom_eq_identifier.2 ⟨hnumber, rfl⟩]
    have htext : (trimmed text).toList = trim text.toList := toList_trimmed text
    refine List.forall_mem_singleton.2 ⟨?_, ?_, ?_⟩
    · intro hempty
      rw [hempty] at htext
      rw [isBlankText_of_trim htext.symm] at h
      cases h
    · rw [← String.toList_inj, toList_trimmed, htext, trim_trim]
    · rw [parseNumber?, Option.map_eq_none_iff] at hnumber
      rw [htext, ← Numeral.isSome_read?, hnumber]
      exact Bool.false_ne_true

end Value

/-- Reading gives legible trees. -/
theorem readsAs_legible : ReadsAs Token.Solid Value.Legible where
  string _ := Value.legible_of_names_eq_nil rfl
  atom _ := Value.legible_readAtom
  form _ := Value.legible_form.2

/-! ## Legible stores -/

/-- Every value that is bound anywhere is legible. -/
def Store.Legible (s : Store) : Prop :=
  ∀ i v, s.Contains i v → v.Legible

namespace Store

variable {s t : Store}

theorem legible_of_same (h : s.Legible) (hscopes : t.scopes = s.scopes) : t.Legible := by
  intro i v hv
  unfold Contains at hv
  rw [hscopes] at hv
  exact h i v hv

theorem Legible.lookup {i : ScopeId} {name : String} {v : Value} (h : s.Legible)
    (hv : s.lookup? i name = some v) : v.Legible := by
  obtain ⟨place, -, hplace⟩ := List.exists_of_findSome?_eq_some hv
  exact h place v (contains_of_local? hplace)

theorem Legible.bind {i : ScopeId} {name : String} {v : Value} (h : s.Legible) (hv : v.Legible) :
    (s.bind i name v).Legible := by
  intro place w hw
  rcases contains_of_contains_bind hw with hw | ⟨-, rfl⟩
  · exact h place w hw
  · exact hv

theorem Legible.addScope {new : Scope} (h : s.Legible)
    (hnew : ∀ binding ∈ new.bindings, binding.2.Legible) : (s.addScope new).2.Legible := by
  rintro place w ⟨scope, hscope, name, hbinding⟩
  by_cases hplace : place = s.scopes.size
  · subst hplace
    rw [getElem?_addScope_self] at hscope
    cases hscope
    exact hnew (name, w) hbinding
  · rw [getElem?_addScope_of_ne new hplace] at hscope
    exact h place w ⟨scope, hscope, name, hbinding⟩

end Store

/-! ## Evaluation is legible -/

/-- Handing out no names that do not read back. -/
def legibility : Discipline where
  store := Store.Legible
  later _ _ := True
  scope _ _ := True
  value _ := Value.Legible
  later_refl _ := trivial
  later_trans _ _ := trivial
  scope_later _ _ := trivial
  value_later _ := id
  value_plain {s v} h := by
    apply Value.legible_of_names_eq_nil
    cases v <;> first | rfl | cases h
  value_symbol := id
  value_form := Value.legible_form
  value_embedded := Iff.rfl
  value_pair := Value.legible_pair
  value_procedure := Value.legible_ofAll.trans (and_iff_left trivial).symm
  value_callback := Iff.rfl
  value_setGlobal _ := trivial
  value_host _ _ _ := trivial
  value_read htokens h := (readsAs_legible.readMany htokens).1 _ h
  lookup h _ hv := h.lookup hv
  owner _ _ _ := trivial
  rootOf _ _ := trivial
  bind _ h _ hv := ⟨h.bind hv, trivial⟩
  addScope h _ _ hbindings := ⟨h.addScope hbindings, trivial, trivial⟩
  quiet h hscopes _ := ⟨Store.legible_of_same h hscopes, trivial⟩

theorem allowsNatives_legibility (s : Store) (root : ScopeId) :
    legibility.AllowsNatives s root where
  scope := trivial
  primitive _ _ _ := Value.legible_of_names_eq_nil rfl
  host _ _ _ := Value.legible_of_names_eq_nil rfl
  setGlobal _ _ := Value.legible_of_names_eq_nil rfl

/-! ## Legible sessions -/

namespace Session

/-- What keeps the discipline leaves a legible store legible. -/
theorem legible_left {α : Type} {P : Store → α → Prop} {run : Run α} {s : Store}
    (hrun : Run.Agree legibility s P run run) (h : s.Legible) : (Run.left (run s)).Legible :=
  (hrun s h trivial).2.left.1

theorem legible_withRoot {s : Store} (h : s.Legible) : s.withRoot.Legible :=
  fun i v hv => h i v (Store.contains_of_contains_withRoot hv).2

/-- Every request leaves a legible store legible. -/
theorem legible_step [hosts.Coupled] {session : Session} (request : Request)
    (h : session.store.Legible) :
    (left (request.perform (Machine.ofDepth hosts) session)).store.Legible := by
  cases request with
  | reset rounds depth =>
    have hagree := Machine.agree_ofDepth (D := legibility) hosts rounds depth
    rw [perform_reset, store_left_put]
    exact legible_left (agree_fillRoot hagree (allowsNatives_legibility _ _) _ _)
      (legible_withRoot h)
  | eval rounds depth source =>
    have hagree := Machine.agree_ofDepth (D := legibility) hosts rounds depth
    rw [perform_eval, store_left_put]
    exact legible_left (hagree.evalText source trivial) h
  | register registration =>
    rw [perform_register, store_left_put]
    exact legible_left (agree_bindIn (allowsNatives_legibility _ _) _) h

theorem legible_after [hosts.Coupled] {session : Session} (requests : List Request)
    (h : session.store.Legible) :
    (after hosts requests session).store.Legible := by
  induction requests generalizing session with
  | nil => exact h
  | cons request requests ih => exact ih (legible_step request h)

theorem legible_start [hosts.Coupled] (rounds depth : Nat) (prelude : Prelude)
    (registrations : List Registration) :
    (start hosts rounds depth prelude registrations).store.Legible := by
  apply legible_step
  rintro i v ⟨scope, hscope, -⟩
  cases hscope

/-- What is computed from legible values is legible. -/
theorem legible_eval [hosts.Coupled] {rounds depth : Nat} {source : String}
    {session after : Session} {v : Value} (h : session.store.Legible)
    (heval : eval (.ofDepth hosts rounds depth) source session = .ok v after) :
    v.Legible ∧ after.store.Legible := by
  have hagree := Machine.agree_ofDepth (D := legibility) hosts rounds depth
  have hends : Run.Ends legibility session.store legibility.value
      ((Machine.ofDepth hosts rounds depth).evalText session.store.root source session.store) :=
    (hagree.evalText (s := session.store) source trivial session.store h trivial).2
  rw [eval_eq] at heval
  generalize (Machine.ofDepth hosts rounds depth).evalText session.store.root source session.store =
    result at heval hends
  cases result with
  | ok value store =>
    cases heval
    exact ⟨hends.2.2, hends.1⟩
  | error stop store => cases heval

end Session

end TinyLisp
