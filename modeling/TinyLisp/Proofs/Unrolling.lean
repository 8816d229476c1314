import TinyLisp.Proofs.Evaluation.Faults
import TinyLisp.Proofs.Hosts
import TinyLisp.Proofs.Identities

/-!
# Calls that natives make

A native that calls a procedure for the elements of a list does what the calls do
when they are written out: it makes them in order and once each, and it makes none
behind the first one that fails.

There are five groups.

* `Value.applied`: the form that applies one value to others.
* `Run.InTurn` and `Run.Accumulates`: calls one after the other, each in the store
  that the one before it left.
* `Stop.inside`: what becomes of the failure of a call on its way out of a native.
* The natives, from how their calls end.
* `Machine.unrolls`: the natives beside the calls that are written out.
-/

namespace TinyLisp

variable {hosts : Hosts}

/-! ## Applications of values -/

/-- The form that applies a value to others. -/
def Value.applied (f : Value) (arguments : List Value) : Value :=
  .form ((f :: arguments).map (.embedded 0))

namespace Machine

theorem eval_applied (m : Machine) (scope : ScopeId) {f : Value} (hf : f.isCallable = true)
    (arguments : List Value) :
    (above hosts (above hosts m)).eval scope (.applied f arguments) =
      (above hosts m).invoke f arguments := by
  have hmapM : (arguments.map (.embedded 0)).mapM ((above hosts m).eval scope) =
      (pure arguments : Run (List Value)) := by
    rw [List.mapM_map]
    exact (List.mapM_pure (f := id)).trans (by rw [List.map_id])
  show (above hosts m).application scope (.embedded 0 f) (arguments.map (.embedded 0)) = _
  rw [application, hmapM]
  exact if_pos hf

/-- A native that is applied to values. -/
theorem eval_applied_native (m : Machine) (scope : ScopeId) (identity : Identity) (name : String)
    (operation : Primitive) (arguments : List Value) :
    (above hosts (above hosts m)).eval scope
        (.applied (.native identity name (.primitive operation)) arguments) =
      Run.inNative name ((operation.native m).call arguments) :=
  eval_applied m scope rfl arguments

end Machine

/-! ## Calls one after the other -/

namespace Run

/-- The calls for the items end in this way: each begins in the store that the one before it
left, and the first that fails is the last one. -/
inductive InTurn {α : Type} (call : α → Run Value) :
    List α → Store → Except Stop (List Value) → Store → Prop where
  | done {s : Store} : InTurn call [] s (.ok []) s
  | failed {item : α} {rest : List α} {s t : Store} {stop : Stop}
      (h : call item s = .error stop t) : InTurn call (item :: rest) s (.error stop) t
  | called {item : α} {rest : List α} {s t u : Store} {v : Value}
      {outcome : Except Stop (List Value)} (h : call item s = .ok v t)
      (hrest : InTurn call rest t outcome u) :
      InTurn call (item :: rest) s (outcome.map (v :: ·)) u

/-- The calls for the items end in this way, each with the result of the one before it. -/
inductive Accumulates {α : Type} (call : Value → α → Run Value) :
    Value → List α → Store → Except Stop Value → Store → Prop where
  | done {total : Value} {s : Store} : Accumulates call total [] s (.ok total) s
  | failed {total : Value} {item : α} {rest : List α} {s t : Store} {stop : Stop}
      (h : call total item s = .error stop t) :
      Accumulates call total (item :: rest) s (.error stop) t
  | called {total v : Value} {item : α} {rest : List α} {s t u : Store}
      {outcome : Except Stop Value} (h : call total item s = .ok v t)
      (hrest : Accumulates call v rest t outcome u) :
      Accumulates call total (item :: rest) s outcome u

section

variable {α : Type} {items : List α} {s t : Store}

theorem InTurn.exists (call : α → Run Value) (items : List α) (s : Store) :
    ∃ outcome t, InTurn call items s outcome t := by
  induction items generalizing s with
  | nil => exact ⟨_, _, .done⟩
  | cons item rest ih =>
    cases hcall : call item s with
    | ok v t =>
      obtain ⟨outcome, u, hrest⟩ := ih t
      exact ⟨_, _, .called hcall hrest⟩
    | error stop t => exact ⟨_, _, .failed hcall⟩

theorem Accumulates.exists (call : Value → α → Run Value) (total : Value) (items : List α)
    (s : Store) : ∃ outcome t, Accumulates call total items s outcome t := by
  induction items generalizing total s with
  | nil => exact ⟨_, _, .done⟩
  | cons item rest ih =>
    cases hcall : call total item s with
    | ok v t =>
      obtain ⟨outcome, u, hrest⟩ := ih v t
      exact ⟨_, _, .called hcall hrest⟩
    | error stop t => exact ⟨_, _, .failed hcall⟩

/-- There is one result for each call. -/
theorem InTurn.length_eq {call : α → Run Value} {outcome : Except Stop (List Value)}
    (h : InTurn call items s outcome t) {results : List Value} (hresults : outcome = .ok results) :
    results.length = items.length := by
  induction h generalizing results with
  | done =>
    cases hresults
    rfl
  | failed h => cases hresults
  | @called _ _ _ _ _ _ outcome h hrest ih =>
    cases outcome with
    | error stop => cases hresults
    | ok rest =>
      cases hresults
      exact congrArg (· + 1) (ih rfl)

/-- How a run ends, from its outcome and the store that it leaves. -/
def ended {β : Type} (outcome : Except Stop β) (t : Store) : EStateM.Result Stop Store β :=
  match outcome with
  | .ok b => .ok b t
  | .error stop => .error stop t

theorem ended_inj {β : Type} {outcome outcome' : Except Stop β} {t t' : Store} :
    ended outcome t = ended outcome' t' ↔ outcome = outcome' ∧ t = t' := by
  cases outcome <;> cases outcome' <;> simp [ended]

theorem InTurn.mapM_eq {call : α → Run Value} {outcome : Except Stop (List Value)}
    (h : InTurn call items s outcome t) : items.mapM call s = ended outcome t := by
  induction h with
  | done => rfl
  | failed h => rw [List.mapM_cons, bind_of_error h, ended]
  | @called _ _ _ _ _ _ outcome h hrest ih =>
    rw [List.mapM_cons, bind_of_ok h]
    cases outcome with
    | ok results => exact bind_of_ok ih
    | error stop => exact bind_of_error ih

/-- The calls end in one way only. -/
theorem InTurn.unique {call : α → Run Value} {outcome outcome' : Except Stop (List Value)}
    {t' : Store} (h : InTurn call items s outcome t) (h' : InTurn call items s outcome' t') :
    outcome = outcome' ∧ t = t' :=
  ended_inj.1 (h.mapM_eq.symm.trans h'.mapM_eq)

theorem Accumulates.foldlM_eq {call : Value → α → Run Value} {total : Value}
    {outcome : Except Stop Value} (h : Accumulates call total items s outcome t) :
    items.foldlM call total s = ended outcome t := by
  induction h with
  | done => rfl
  | failed h => rw [List.foldlM_cons, bind_of_error h, ended]
  | called h hrest ih => rw [List.foldlM_cons, bind_of_ok h, ih]

end

/-- The items whose results are truthy. -/
def accepted (items results : List Value) : List Value :=
  ((items.zip results).filter (·.2.isTruthy)).map (·.1)

section

variable (call : Value → Run Value) (items : List Value)

theorem forM_eq_mapM :
    (items.forM fun item => do let _ ← call item : Run PUnit) =
      (do let _ ← items.mapM call) := by
  induction items with
  | nil => rfl
  | cons item rest ih =>
    have hcons : (item :: rest).forM (fun item => do let _ ← call item : _ → Run PUnit) =
        (do let _ ← call item; rest.forM fun item => do let _ ← call item) :=
      bind_assoc ..
    rw [hcons, ih]
    simp only [List.mapM_cons, bind_assoc, pure_bind]

theorem filterM_eq_mapM :
    (items.filterM fun item => return (← call item).isTruthy) =
      (do return accepted items (← items.mapM call)) := by
  have hkept : ∀ kept : List Value,
      (items.filterAuxM (fun item => return (← call item).isTruthy) kept) =
        (do return (accepted items (← items.mapM call)).reverse ++ kept) := by
    induction items with
    | nil => exact fun _ => rfl
    | cons item rest ih =>
      intro kept
      simp only [List.filterAuxM, ih, List.mapM_cons, bind_assoc, pure_bind]
      congr 1
      funext v
      congr 1
      funext results
      cases hv : v.isTruthy <;> simp [accepted, hv]
  rw [List.filterM, hkept]
  simp only [bind_assoc, pure_bind, List.append_nil, List.reverse_reverse]

end

end Run

/-! ## Failures of calls -/

/-- A failure of a call, as it leaves the native `name` that made the call. -/
def Stop.inside (name : String) : Stop → Stop
  | .fault cause => .error (.native name cause)
  | stop => stop

namespace Run

variable {α : Type} {run : Run α} {s t : Store}

theorem inNative_of_ok (name : String) {a : α} (h : run s = .ok a t) :
    inNative name run s = .ok a t := by
  rw [inNative, h]

theorem inNative_of_error (name : String) {stop : Stop} (h : run s = .error stop t) :
    inNative name run s = .error (stop.inside name) t := by
  rw [inNative, h]
  cases stop <;> rfl

theorem inNative_of_ended (name : String) {outcome : Except Stop α} (h : run s = ended outcome t) :
    inNative name run s = ended (outcome.mapError (·.inside name)) t := by
  cases outcome with
  | ok a => exact inNative_of_ok name h
  | error stop => exact inNative_of_error name h

theorem exists_ended (run : Run α) (s : Store) :
    ∃ outcome t, run s = ended outcome t := by
  cases hrun : run s with
  | ok a t => exact ⟨.ok a, t, rfl⟩
  | error stop t => exact ⟨.error stop, t, rfl⟩

end Run

/-! ## Natives that call -/

theorem Sequence.elements_of_toList? (depth : Nat) {list : Value} {items : List Value}
    (h : list.toList? = some items) : elements depth list = .ok items := by
  unfold elements
  cases list with
  | nil | pair => simp only [h]
  | _ => cases h

namespace Calling

variable {f list : Value} {items : List Value} {s t : Store}

section

variable (m : Machine) (hf : f.isCallable = true) (hlist : list.toList? = some items)

include hf in
theorem invoke_of_isCallable (arguments : List Value) :
    invoke m f arguments = m.invoke f arguments :=
  if_pos hf

include hlist in
theorem elementsOf_of_toList? : elementsOf m list = pure items := by
  rw [elementsOf, Sequence.elements_of_toList? m.depth hlist]
  rfl

include hf hlist

theorem map_eq :
    map m f list = (do Run.newList (← items.mapM fun item => m.invoke f [item])) := by
  simp only [map, elementsOf_of_toList? m hlist, invoke_of_isCallable m hf, pure_bind]

theorem filter_eq :
    filter m f list = (do
      let results ← items.mapM fun item => m.invoke f [item]
      Run.newList (Run.accepted items results)) := by
  simp only [filter, elementsOf_of_toList? m hlist, invoke_of_isCallable m hf, pure_bind]
  rw [Run.filterM_eq_mapM, bind_assoc]
  simp only [pure_bind]

theorem forEach_eq :
    forEach m f list = (do
      let _ ← items.mapM fun item => m.invoke f [item]
      return .undefined) := by
  simp only [forEach, elementsOf_of_toList? m hlist, invoke_of_isCallable m hf, pure_bind]
  rw [Run.forM_eq_mapM, bind_assoc]
  simp only [pure_bind]

theorem reduce_eq (initial : Value) :
    reduce m f initial list =
      items.foldlM (fun total item => m.invoke f [total, item]) initial := by
  simp only [reduce, elementsOf_of_toList? m hlist, invoke_of_isCallable m hf, pure_bind]

theorem apply_eq : apply m f list = m.invoke f items := by
  simp only [apply, elementsOf_of_toList? m hlist, invoke_of_isCallable m hf, pure_bind]

end

section

variable {m : Machine} (hf : f.isCallable = true) (hlist : list.toList? = some items)

include hf hlist

theorem map_of_inTurn {results : List Value}
    (h : Run.InTurn (fun item => m.invoke f [item]) items s (.ok results) t) :
    map m f list s = .ok (.chain t.nextIdentity results .nil) (t.reserve results.length).2 := by
  rw [map_eq m hf hlist, Run.bind_of_ok h.mapM_eq]
  rfl

theorem forEach_of_inTurn {results : List Value}
    (h : Run.InTurn (fun item => m.invoke f [item]) items s (.ok results) t) :
    forEach m f list s = .ok .undefined t := by
  rw [forEach_eq m hf hlist, Run.bind_of_ok h.mapM_eq]
  rfl

theorem filter_of_inTurn {results : List Value}
    (h : Run.InTurn (fun item => m.invoke f [item]) items s (.ok results) t) :
    filter m f list s =
      .ok (.chain t.nextIdentity (Run.accepted items results) .nil)
        (t.reserve (Run.accepted items results).length).2 := by
  rw [filter_eq m hf hlist, Run.bind_of_ok h.mapM_eq]
  rfl

/-- The natives that call for each element stop with the first call that fails. -/
theorem stops_of_inTurn {stop : Stop}
    (h : Run.InTurn (fun item => m.invoke f [item]) items s (.error stop) t) :
    map m f list s = .error stop t ∧ forEach m f list s = .error stop t ∧
      filter m f list s = .error stop t := by
  refine ⟨?_, ?_, ?_⟩
  · rw [map_eq m hf hlist, Run.bind_of_error h.mapM_eq]
  · rw [forEach_eq m hf hlist, Run.bind_of_error h.mapM_eq]
  · rw [filter_eq m hf hlist, Run.bind_of_error h.mapM_eq]

end

theorem makeCallback_eq (m : Machine) (hf : f.isCallable = true) (s : Store) :
    makeCallback m f s = .ok (.callback s.nextIdentity f) (s.reserve 1).2 := by
  rw [makeCallback, if_pos hf]
  rfl

end Calling

/-! ## Calls written out -/

namespace Machine

/-- A callback that is made and called does what its target does. -/
theorem eval_callback (m : Machine) (scope : ScopeId) (s : Store) (identity : Identity)
    (name : String) {f : Value} (hf : f.isCallable = true) :
    (above hosts (above hosts (above hosts m))).eval scope
        (.form [.applied (.native identity name (.primitive .makeCallback)) [f]]) s =
      Run.inNative Value.callbackName ((above hosts m).invoke f []) (s.reserve 1).2 := by
  have hmake : (above hosts (above hosts m)).eval scope
      (.applied (.native identity name (.primitive .makeCallback)) [f]) s =
        .ok (.callback s.nextIdentity f) (s.reserve 1).2 := by
    rw [eval_applied_native]
    show Run.inNative name (Calling.makeCallback m f) s = _
    rw [Run.inNative, Calling.makeCallback_eq m hf]
  exact Run.bind_of_ok hmake

/-- The natives that call a procedure do what the calls do when they are written out.  For
the elements of a list the calls are made in order, each in the store that the one before it
left.  A failing call is the last one, and its failure is that of the native; only where an
integer is too long to be written in its message, it becomes an error of the native. -/
theorem unrolls (hosts : Hosts) (rounds depth : Nat) (scope : ScopeId) (s : Store)
    (identity : Identity) (name : String) {f list : Value} {items : List Value} (initial : Value)
    (hf : f.isCallable = true) (hlist : list.toList? = some items) :
    let call arguments := (ofDepth hosts rounds (depth + 2)).eval scope (.applied f arguments)
    let native operation arguments := (ofDepth hosts rounds (depth + 3)).eval scope
      (.applied (.native identity name (.primitive operation)) arguments) s
    (∃ outcome t, Run.InTurn (fun item => call [item]) items s outcome t ∧
      match outcome with
      | .ok results =>
        results.length = items.length ∧
          native .map [f, list] =
            .ok (.chain t.nextIdentity results .nil) (t.reserve results.length).2 ∧
          native .forEach [f, list] = .ok .undefined t ∧
          let kept := Run.accepted items results
          native .filter [f, list] = .ok (.chain t.nextIdentity kept .nil) (t.reserve kept.length).2
      | .error stop =>
        ∀ operation ∈ [Primitive.map, .forEach, .filter],
          native operation [f, list] = .error (stop.inside name) t) ∧
    (∃ outcome t,
      Run.Accumulates (fun total item => call [total, item]) initial items s outcome t ∧
      native .reduce [f, initial, list] = Run.ended (outcome.mapError (·.inside name)) t) ∧
    (∃ outcome t, call items s = Run.ended outcome t ∧
      native .apply [f, list] = Run.ended (outcome.mapError (·.inside name)) t) ∧
    (∃ outcome t, call [] (s.reserve 1).2 = Run.ended outcome t ∧
      (ofDepth hosts rounds (depth + 3)).eval scope
          (.form [.applied (.native identity name (.primitive .makeCallback)) [f]]) s =
        Run.ended (outcome.mapError (·.inside Value.callbackName)) t ∧
      (hosts.Uniform → s.Fresh → s.Knows f →
        Run.RenamedResult (leaveOut s.nextIdentity 1) (call [] s) (call [] (s.reserve 1).2))) ∧
    ∀ arguments, (call arguments).Contained := by
  intro call native
  have hcall : ∀ arguments,
      call arguments = (ofDepth hosts rounds (depth + 1)).invoke f arguments :=
    eval_applied (ofDepth hosts rounds depth) scope hf
  have hnative : ∀ operation arguments, native operation arguments =
      Run.inNative name ((operation.native (ofDepth hosts rounds (depth + 1))).call arguments) s :=
    fun operation arguments =>
      congrFun (eval_applied_native (ofDepth hosts rounds (depth + 1)) scope identity name _ _) s
  refine ⟨?_, ?_, ?_, ?_, fun arguments => (contained_ofDepth rounds (depth + 2)).eval _ _⟩
  · obtain ⟨outcome, t, h⟩ := Run.InTurn.exists (fun item => call [item]) items s
    refine ⟨outcome, t, h, ?_⟩
    simp only [hcall] at h
    simp only [hnative]
    cases outcome with
    | ok results =>
      refine ⟨h.length_eq rfl, ?_, ?_, ?_⟩
      · exact Run.inNative_of_ok name (Calling.map_of_inTurn hf hlist h)
      · exact Run.inNative_of_ok name (Calling.forEach_of_inTurn hf hlist h)
      · exact Run.inNative_of_ok name (Calling.filter_of_inTurn hf hlist h)
    | error stop =>
      obtain ⟨hmap, hforEach, hfilter⟩ := Calling.stops_of_inTurn hf hlist h
      intro operation hoperation
      simp only [List.mem_cons, List.not_mem_nil, or_false] at hoperation
      rcases hoperation with rfl | rfl | rfl
      · exact Run.inNative_of_error name hmap
      · exact Run.inNative_of_error name hforEach
      · exact Run.inNative_of_error name hfilter
  · obtain ⟨outcome, t, h⟩ :=
      Run.Accumulates.exists (fun total item => call [total, item]) initial items s
    refine ⟨outcome, t, h, ?_⟩
    simp only [hcall] at h
    have hreduce := Calling.reduce_eq (ofDepth hosts rounds (depth + 1)) hf hlist initial
    rw [hnative]
    exact Run.inNative_of_ended name ((congrFun hreduce s).trans h.foldlM_eq)
  · obtain ⟨outcome, t, h⟩ := Run.exists_ended (call items) s
    refine ⟨outcome, t, h, ?_⟩
    rw [hcall] at h
    have happly := Calling.apply_eq (ofDepth hosts rounds (depth + 1)) hf hlist
    rw [hnative]
    exact Run.inNative_of_ended name ((congrFun happly s).trans h)
  · obtain ⟨outcome, t, h⟩ := Run.exists_ended (call []) (s.reserve 1).2
    refine ⟨outcome, t, h, ?_, fun huniform hfresh hknows => ?_⟩
    · rw [hcall] at h
      exact (eval_callback _ scope s identity name hf).trans (Run.inNative_of_ended _ h)
    · rw [hcall]
      exact invoke_reserve rounds (depth + 1) hfresh hknows 1

/-- The second of three calls fails.  The first one has been made, the third one is not, and
the failure is that of the call. -/
theorem unrolls_stops :
    let f : Value := .procedure 0 ["a"]
      [.form [.identifier "set!", .identifier "last", .identifier "a"],
        .form [.identifier "if", .identifier "a", .identifier "a", .identifier "missing"]] 0
    let items : List Value := [.int 1, .int 0, .int 2]
    let list := Value.chain 1 items .nil
    let s : Store := ⟨#[⟨none, [("last", .undefined)]⟩], 0, 9, "", 0⟩
    usualHosts.Uniform ∧ f.isCallable = true ∧ list.toList? = some items ∧ s.Fresh ∧ s.Knows f ∧
      (∃ t, (ofDepth usualHosts 1 6).eval 0
          (.applied (.native 0 "map" (.primitive .map)) [f, list]) s =
            .error (.error (.unbound "missing")) t ∧ t.lookup? 0 "last" = some (.int 0)) ∧
      Run.RenamedResult (leaveOut 9 1) ((ofDepth usualHosts 1 5).eval 0 (.applied f []) s)
        ((ofDepth usualHosts 1 5).eval 0 (.applied f []) (s.reserve 1).2) := by
  intro f items list s
  have hlist : list.toList? = some items := Value.toList?_chain 1 items
  have hfresh : s.Fresh := by
    rintro (_ | place) v ⟨scope, hscope, name, hbinding⟩ <;> cases hscope
    obtain ⟨-, rfl⟩ := Prod.mk.inj (List.mem_singleton.1 hbinding)
    exact fun _ hi => by cases hi
  have hknows : s.Knows f := by
    intro i hi
    obtain rfl : i = 0 := List.mem_singleton.1 hi
    decide
  obtain ⟨⟨outcome, t, hturn, hnatives⟩, -, -, ⟨-, -, -, -, hrenamed⟩, -⟩ :=
    unrolls usualHosts 1 3 0 s 0 "map" .nil (f := f) rfl hlist
  obtain ⟨rfl, rfl⟩ := hturn.unique (.called rfl (.failed rfl))
  have hmap := hnatives .map List.mem_cons_self
  exact ⟨inferInstance, rfl, hlist, hfresh, hknows, ⟨_, hmap, rfl⟩,
    hrenamed inferInstance hfresh hknows⟩

/-- A call fails as the only expression of the body does. -/
theorem invoke_of_error {m : Machine} {identity : Identity} {parameters : List String}
    {expression : Value} {outer : ScopeId} {arguments : List Value} {stop : Stop} {s t : Store}
    (h : m.eval s.scopes.size expression (s.addScope (callScope parameters arguments outer)).2 =
      .error stop t) :
    (above hosts m).invoke (.procedure identity parameters [expression] outer) arguments s =
      .error stop t := by
  show m.evalBody s.scopes.size [expression] _ = _
  rw [evalBody, Run.lastOf, List.foldlM_cons]
  exact Run.bind_of_error h

/-- An integer that is too long to be written cannot be called, and no message says so. -/
theorem refuse_long (rounds depth : Nat) {n : Int} (h : writeInteger n = .fault .longInteger) :
    (ofDepth hosts rounds (depth + 1)).refuse (.int n) = Run.fault .longInteger := by
  have htext : (ofDepth hosts rounds (depth + 1)).text (.int n) =
      Run.ofAttempt ((writeInteger n).map String.ofList) := by
    rw [text, depth_ofDepth, Value.text, Value.write]
  rw [refuse, htext, h]
  rfl

/-- The procedure tries to call an integer that is too long for the message.  The call ends
with the fault, and `map` turns it into an error of its own. -/
theorem map_wraps_fault :
    let f : Value := .procedure 0 ["x"] [.form [.identifier "x"]] 0
    let n : Value := .int (Nat.pow 2 14285 : Int)
    let s : Store := ⟨#[.empty none], 0, 9, "", 0⟩
    ∃ t, (ofDepth usualHosts 1 5).eval 0 (.applied f [n]) s = .error (.fault .longInteger) t ∧
      (ofDepth usualHosts 1 6).eval 0
        (.applied (.native 0 "map" (.primitive .map)) [f, .pair 1 n .nil]) s =
        .error (.error (.native "map" .longInteger)) t := by
  have hlong : writeInteger (Nat.pow 2 14285 : Int) = .fault .longInteger :=
    if_neg (by rw [Int.natAbs_natCast]; decide +kernel)
  generalize (Nat.pow 2 14285 : Int) = n at hlong
  intro f v s
  let t := (s.addScope (callScope ["x"] [v] 0)).2
  have hbody : (ofDepth usualHosts 1 3).eval 1 (.form [.identifier "x"]) t =
      .error (.fault .longInteger) t := by
    have hname : (ofDepth usualHosts 1 2).eval 1 (.identifier "x") t = .ok v t := rfl
    have hv : ¬ v.isCallable = true := Bool.false_ne_true
    show (ofDepth usualHosts 1 2).application 1 (.identifier "x") [] t = _
    rw [application, Run.bind_of_ok hname, List.mapM_nil, pure_bind, if_neg hv,
      refuse_long 1 1 hlong]
    rfl
  have hcall : (above usualHosts (ofDepth usualHosts 1 3)).invoke f [v] s =
      .error (.fault .longInteger) t :=
    invoke_of_error hbody
  have hturn : Run.InTurn (fun item => (ofDepth usualHosts 1 4).invoke f [item]) [v] s
      (.error (.fault .longInteger)) t := .failed hcall
  have hlist : (Value.pair 1 v .nil).toList? = some [v] := rfl
  obtain ⟨hmap, -, -⟩ := Calling.stops_of_inTurn rfl hlist hturn
  refine ⟨t, ?_, ?_⟩
  · exact (congrFun (eval_applied (ofDepth usualHosts 1 3) 0 rfl [v]) s).trans hcall
  · exact (congrFun (eval_applied_native (ofDepth usualHosts 1 4) 0 0 "map" _ _) s).trans
      (Run.inNative_of_error "map" hmap)

end Machine

end TinyLisp
