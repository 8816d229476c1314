import TinyLisp.Proofs.Composition
import TinyLisp.Proofs.Evaluation.Faults
import TinyLisp.Proofs.Writing
import TinyLisp.Repl

/-!
# The answers of the loop

The loop answers a block with the value or with what went wrong.  An error of the
language and the end of the depth are reported, wherever the evaluation meets them.
The value is written behind the report, though: a value that is nested too deeply,
or an integer that is too long, ends the loop.  An evaluation that does not end has no
answer at all; on a machine it is one that uses up all rounds of a loop.

There are four groups.

* `owed`: the answer to a block, and the session that is left.  `Answerable` says
  which blocks get theirs.
* `evaluate_cases`: one block.  It is answered, or the loop breaks off, or the
  evaluation does not end; the session is kept in every case.
* `endsFrom_run_iff`: the whole loop ends well when every block is answerable in the
  session that it finds.  `answers_or_breaksOff` puts this together with the answers
  to single blocks.
* A list in a list: `breaksOff_nesting` leads to a value that has no answer.
-/

namespace TinyLisp.Repl

variable {hosts : Hosts}

open Session (left)

variable {m : Machine} {text : List Char} {session : Session} {rounds depth : Nat}

/-! ## What is owed -/

/-- The answer that the loop owes for a block, and the session that it is to leave.  Whatever stops
the evaluation of the block or the writing of its value is to be reported.  Nothing is owed for an
evaluation that does not end. -/
def owed (m : Machine) (text : List Char) (session : Session) : Option (Bool × String) × Session :=
  match prepare text with
  | [] => (some (true, ""), session)
  | source =>
    match Session.eval m (String.ofList source) session with
    | .ok value after =>
      match value.text m.depth with
      | .ok shown => (some (true, shown), after)
      | .error stop => (some (false, "Error: " ++ stop.message), after)
    | .error .tooLong after => (none, after)
    | .error stop after => (some (false, "Error: " ++ stop.message), after)

/-- A block that the loop has an answer to: its evaluation ends, its value, if it has one, is not
nested too deeply to be written, and no integer that is too long to be written is met. -/
def Answerable (m : Machine) (text : List Char) (session : Session) : Prop :=
  prepare text = [] ∨
    match Session.eval m (String.ofList (prepare text)) session with
    | .ok value _ => value.height ≤ m.depth ∧ value.Short
    | .error stop _ => stop ≠ .fault .longInteger ∧ stop ≠ .tooLong

/-- The loop gives the answer that it owes, and keeps what the evaluation has done. -/
def Answers (m : Machine) (text : List Char) (session : Session) : Prop :=
  ∃ answer, (owed m text session).1 = some answer ∧
    evaluate m false text session = .ok answer (owed m text session).2

/-- The loop gives no answer but ends with an exception: a value is too deep, or an integer too
long, to be written.  What the evaluation has done is kept all the same. -/
def BreaksOff (m : Machine) (text : List Char) (session : Session) : Prop :=
  ∃ stop, (stop = .tooDeep ∨ stop = .fault .longInteger) ∧
    evaluate m false text session = .error stop (owed m text session).2

/-- The loop gives no answer and owes none: the evaluation of the block does not end. -/
def Unfinished (m : Machine) (text : List Char) (session : Session) : Prop :=
  (owed m text session).1 = none ∧
    evaluate m false text session = .error .tooLong (owed m text session).2

/-! ## One block -/

theorem evaluate_of_comments (h : prepare text = []) :
    evaluate m false text session = .ok (true, "") session := by
  unfold evaluate
  rw [h]
  rfl

theorem owed_of_comments (h : prepare text = []) :
    owed m text session = (some (true, ""), session) := by
  unfold owed
  rw [h]

/-- What is owed for an evaluation that stops. -/
theorem owed_of_stop {c : Char} {rest : List Char} (h : prepare text = c :: rest) {stop : Stop}
    {after : Session}
    (heval : Session.eval m (String.ofList (c :: rest)) session = .error stop after) :
    (owed m text session).2 = after ∧
      (stop = .tooLong → (owed m text session).1 = none) ∧
      (stop ≠ .tooLong →
        (owed m text session).1 = some (false, "Error: " ++ stop.message)) := by
  unfold owed
  simp only [h, heval]
  cases stop with
  | tooLong => exact ⟨rfl, fun _ => rfl, fun hne => absurd rfl hne⟩
  | error | fault | tooDeep => exact ⟨rfl, nofun, fun _ => rfl⟩

/-- What the loop does with the outcome of an evaluation. -/
def answer (m : Machine) : Except Stop Value → Interaction (Bool × String)
  | .ok value => do return (true, ← Interaction.onStore (m.text value))
  | .error stop =>
    match report? stop with
    | some shown => return (false, shown)
    | none => throw stop

theorem evaluate_of_source {c : Char} {rest : List Char} (h : prepare text = c :: rest) :
    evaluate m false text = attempt m (String.ofList (c :: rest)) >>= answer m := by
  simp only [evaluate, h, Bool.false_eq_true, if_false]
  congr 1

/-- The value of a block is written when the block has been evaluated. -/
theorem evaluate_of_value {c : Char} {rest : List Char} (h : prepare text = c :: rest)
    {value : Value} {after : Session}
    (heval : Session.eval m (String.ofList (c :: rest)) session = .ok value after) :
    evaluate m false text session = match value.text m.depth with
      | .ok shown => .ok (true, shown) after
      | .error stop => .error stop after := by
  have hattempt : attempt m (String.ofList (c :: rest)) session = .ok (.ok value) after := by
    rw [attempt, heval]
  rw [evaluate_of_source h, Run.bind_of_ok hattempt, answer]
  cases htext : value.text m.depth with
  | ok shown =>
    have hwrite : m.text value after.store = .ok shown after.store := by
      rw [Machine.text, htext]
      rfl
    rw [Run.bind_of_ok (Interaction.onStore_of_ok hwrite)]
    rfl
  | error stop =>
    have hwrite : m.text value after.store = .error stop after.store := by
      rw [Machine.text, htext]
      rfl
    rw [Run.bind_of_error (Interaction.onStore_of_error hwrite)]

theorem evaluate_of_stop {c : Char} {rest : List Char} (h : prepare text = c :: rest) {stop : Stop}
    {after : Session}
    (heval : Session.eval m (String.ofList (c :: rest)) session = .error stop after) :
    evaluate m false text session = match report? stop with
      | some shown => .ok (false, shown) after
      | none => .error stop after := by
  have hattempt : attempt m (String.ofList (c :: rest)) session = .ok (.error stop) after := by
    rw [attempt, heval]
  rw [evaluate_of_source h, Run.bind_of_ok hattempt, answer]
  cases report? stop with
  | some shown => rfl
  | none => rfl

/-- Everything is reported but a fault and the end of the rounds. -/
theorem report?_eq (stop : Stop) :
    report? stop = some ("Error: " ++ stop.message) ∧ stop ≠ .tooLong ∨
      report? stop = none ∧ (stop = .tooLong ∨ ∃ fault, stop = .fault fault) := by
  cases stop with
  | fault fault => exact .inr ⟨rfl, .inr ⟨fault, rfl⟩⟩
  | tooLong => exact .inr ⟨rfl, .inl rfl⟩
  | error | tooDeep => exact .inl ⟨rfl, nofun⟩

theorem eval_fault {source : String} {fault : Fault} {after : Session}
    (h : Session.eval (.ofDepth hosts rounds depth) source session = .error (.fault fault) after) :
    fault = .longInteger := by
  have hcontained := Machine.contained_evalText hosts rounds depth session.store.root source
  rw [Session.eval_eq] at h
  split at h
  · cases h
  · rename_i stop store hrun
    cases h
    exact hcontained session.store fault store hrun

/-- A block with a value. -/
theorem evaluate_value_cases {c : Char} {rest : List Char} (h : prepare text = c :: rest)
    {value : Value} {after : Session}
    (heval : Session.eval m (String.ofList (c :: rest)) session = .ok value after) :
    (value.height ≤ m.depth ∧ value.Short) ∧ Answers m text session ∨
      ¬ (value.height ≤ m.depth ∧ value.Short) ∧ BreaksOff m text session := by
  unfold Answers BreaksOff owed
  rw [h, evaluate_of_value h heval]
  simp only [heval]
  rw [← Value.exists_text_iff]
  have hlimited : (value.text m.depth).Limited := Attempt.limited_map (value.limited_write m.depth)
  cases htext : value.text m.depth with
  | ok text => exact .inl ⟨⟨text, rfl⟩, _, rfl, rfl⟩
  | error stop =>
    refine .inr ⟨?_, stop, hlimited stop htext, rfl⟩
    rintro ⟨text, h⟩
    cases h

/-- An evaluation that has stopped is reported, unless an integer is too long to be written or the
rounds are used up. -/
theorem evaluate_of_error {c : Char} {rest : List Char} (h : prepare text = c :: rest)
    {stop : Stop} {after : Session}
    (heval : Session.eval (.ofDepth hosts rounds depth) (String.ofList (c :: rest)) session =
      .error stop after) :
    (stop ≠ .fault .longInteger ∧ stop ≠ .tooLong) ∧
        evaluate (.ofDepth hosts rounds depth) false text session =
          .ok (false, "Error: " ++ stop.message) after ∨
      (stop = .fault .longInteger ∨ stop = .tooLong) ∧
        evaluate (.ofDepth hosts rounds depth) false text session = .error stop after := by
  rw [evaluate_of_stop h heval]
  rcases report?_eq stop with ⟨hreport, hrounds⟩ | ⟨hreport, rfl | ⟨fault, rfl⟩⟩
  · left
    rw [hreport]
    refine ⟨⟨?_, hrounds⟩, rfl⟩
    rintro rfl
    cases hreport
  · exact .inr ⟨.inr rfl, rfl⟩
  · obtain rfl := eval_fault heval
    exact .inr ⟨.inl rfl, rfl⟩

/-- A block whose evaluation stops. -/
theorem evaluate_stop_cases {c : Char} {rest : List Char} (h : prepare text = c :: rest)
    {stop : Stop} {after : Session}
    (heval : Session.eval (.ofDepth hosts rounds depth) (String.ofList (c :: rest)) session =
      .error stop after) :
    (stop ≠ .fault .longInteger ∧ stop ≠ .tooLong) ∧
        Answers (.ofDepth hosts rounds depth) text session ∨
      ¬ (stop ≠ .fault .longInteger ∧ stop ≠ .tooLong) ∧
        (BreaksOff (.ofDepth hosts rounds depth) text session ∨
          Unfinished (.ofDepth hosts rounds depth) text session) := by
  obtain ⟨hafter, hnone, hsome⟩ := owed_of_stop h heval
  unfold Answers BreaksOff Unfinished
  rw [hafter]
  rcases evaluate_of_error h heval with ⟨hreported, hanswer⟩ | ⟨rfl | rfl, hthrown⟩
  · exact .inl ⟨hreported, _, hsome hreported.2, hanswer⟩
  · exact .inr ⟨fun hne => hne.1 rfl, .inl ⟨_, .inr rfl, hthrown⟩⟩
  · exact .inr ⟨fun hne => hne.2 rfl, .inr ⟨hnone rfl, hthrown⟩⟩

/-- A block is answered as it should be, or the loop breaks off, or the evaluation does not end. -/
theorem evaluate_cases (rounds depth : Nat) (text : List Char) (session : Session) :
    Answerable (.ofDepth hosts rounds depth) text session ∧
        Answers (.ofDepth hosts rounds depth) text session ∨
      ¬ Answerable (.ofDepth hosts rounds depth) text session ∧
        (BreaksOff (.ofDepth hosts rounds depth) text session ∨
          Unfinished (.ofDepth hosts rounds depth) text session) := by
  unfold Answerable
  cases hprepare : prepare text with
  | nil =>
    left
    refine ⟨.inl rfl, (true, ""), ?_, ?_⟩
    · rw [owed_of_comments hprepare]
    · rw [evaluate_of_comments hprepare, owed_of_comments hprepare]
  | cons c rest =>
    simp only [reduceCtorEq, false_or]
    cases heval : Session.eval (.ofDepth hosts rounds depth) (String.ofList (c :: rest))
        session with
    | ok value after =>
      exact (evaluate_value_cases hprepare heval).imp_right fun h => ⟨h.1, .inl h.2⟩
    | error stop after => exact evaluate_stop_cases hprepare heval

/-! ## The whole loop -/

/-- The computation ends well when it begins in this state. -/
def EndsFrom {σ α : Type} (computation : EStateM Stop σ α) (state : σ) : Prop :=
  ∃ a after, computation state = .ok a after

theorem endsFrom_evaluate_iff :
    EndsFrom (evaluate (.ofDepth hosts rounds depth) false text) session ↔
      Answerable (.ofDepth hosts rounds depth) text session := by
  rcases evaluate_cases rounds depth text session with ⟨hable, answer, -, hanswer⟩ | ⟨hnot, hcases⟩
  · exact iff_of_true ⟨_, _, hanswer⟩ hable
  · refine iff_of_false ?_ hnot
    rintro ⟨answer, after, hanswer⟩
    rcases hcases with ⟨stop, -, hbreaks⟩ | ⟨-, hunfinished⟩
    · rw [hbreaks] at hanswer
      cases hanswer
    · rw [hunfinished] at hanswer
      cases hanswer

theorem endsFrom_bind_iff {σ α β : Type} {first : EStateM Stop σ α} {next : α → EStateM Stop σ β}
    {state : σ} :
    EndsFrom (first >>= next) state ↔
      ∃ a reached, first state = .ok a reached ∧ EndsFrom (next a) reached := by
  unfold EndsFrom
  cases hfirst : first state with
  | ok a reached =>
    rw [Run.bind_of_ok hfirst]
    constructor
    · intro h
      exact ⟨a, reached, rfl, h⟩
    · rintro ⟨_, _, ⟨⟩, h⟩
      exact h
  | error stop reached =>
    rw [Run.bind_of_error hfirst]
    constructor
    · rintro ⟨_, _, ⟨⟩⟩
    · rintro ⟨_, _, ⟨⟩, _⟩

/-- A row of steps ends well when each of them does where it begins. -/
theorem endsFrom_forM_iff {σ α : Type} {step : α → EStateM Stop σ PUnit} {items : List α}
    {state : σ} :
    EndsFrom (items.forM step) state ↔
      ∀ front item rest, items = front ++ item :: rest →
        ∀ reached, front.forM step state = .ok () reached → EndsFrom (step item) reached := by
  induction items generalizing state with
  | nil =>
    refine iff_of_true ⟨(), state, rfl⟩ ?_
    intro front item rest h
    simp at h
  | cons first items ih =>
    show EndsFrom (step first >>= fun _ => items.forM step) state ↔ _
    rw [endsFrom_bind_iff]
    constructor
    · rintro ⟨_, between, hfirst, hitems⟩ front item rest h reached hreached
      cases front with
      | nil =>
        cases h
        cases hreached
        exact ⟨_, between, hfirst⟩
      | cons other front =>
        cases h
        have hrest : (first :: front).forM step state = front.forM step between :=
          Run.bind_of_ok hfirst
        exact ih.1 hitems front item rest rfl reached (hrest.symm.trans hreached)
    · intro h
      obtain ⟨_, between, hfirst⟩ := h [] first items rfl state rfl
      refine ⟨_, between, hfirst, ih.2 ?_⟩
      rintro front item rest rfl reached hreached
      have hrest : (first :: front).forM step state = front.forM step between :=
        Run.bind_of_ok hfirst
      exact h (first :: front) item rest rfl reached (hrest.trans hreached)

theorem endsFrom_interact_iff {α : Type} {sharesOutput : Bool} {interaction : Interaction α}
    {written : String} {session : Session} :
    EndsFrom (interact sharesOutput interaction) (written, session) ↔
      EndsFrom interaction session := by
  unfold EndsFrom interact
  dsimp only
  cases interaction session with
  | ok a after => exact iff_of_true ⟨_, _, rfl⟩ ⟨_, _, rfl⟩
  | error stop after =>
    constructor
    · rintro ⟨_, _, ⟨⟩⟩
    · rintro ⟨_, _, ⟨⟩⟩

/-- What the loop does with a block ends well when its evaluation does. -/
theorem endsFrom_submit_iff {options : Options} {block : List Line} {written : String} :
    EndsFrom (perform m options (.submit block)) (written, session) ↔
      EndsFrom (evaluate m options.fresh block.flatten) session := by
  rw [perform, endsFrom_bind_iff]
  constructor
  · rintro ⟨answer, reached, hreached, -⟩
    exact endsFrom_interact_iff.1 ⟨answer, reached, hreached⟩
  · intro h
    obtain ⟨⟨ok, shown⟩, reached, hreached⟩ := endsFrom_interact_iff.2 h
    refine ⟨_, reached, hreached, ?_⟩
    show EndsFrom (if shown ≠ "" then say (shown ++ "\n") else pure ()) reached
    split
    · exact ⟨(), _, rfl⟩
    · exact ⟨(), _, rfl⟩

/-- Only a block without an answer ends the loop. -/
theorem endsFrom_perform_iff (prompt : String) (sharesOutput : Bool) (event : Event)
    (state : String × Session) :
    EndsFrom (perform (.ofDepth hosts rounds depth) ⟨prompt, false, sharesOutput⟩ event) state ↔
      ∀ block, event = .submit block →
        Answerable (.ofDepth hosts rounds depth) block.flatten state.2 := by
  obtain ⟨written, session⟩ := state
  cases event with
  | prompt continued => exact iff_of_true ⟨_, _, rfl⟩ fun block h => by cases h
  | endOfInput => exact iff_of_true ⟨_, _, rfl⟩ fun block h => by cases h
  | submit block =>
    have hblocks : (∀ block', Event.submit block = .submit block' →
        Answerable (.ofDepth hosts rounds depth) block'.flatten session) ↔
          Answerable (.ofDepth hosts rounds depth) block.flatten session := by
      constructor
      · exact fun h => h block rfl
      · rintro h _ ⟨⟩
        exact h
    rw [hblocks, ← endsFrom_evaluate_iff]
    exact endsFrom_submit_iff

/-- The loop ends well when every block has an answer in the session that it finds. -/
theorem endsFrom_run_iff (prompt : String) (sharesOutput : Bool) (input : String)
    (state : String × Session) :
    EndsFrom (run (.ofDepth hosts rounds depth) ⟨prompt, false, sharesOutput⟩ input) state ↔
      ∀ front block rest, events (linesOf input) = front ++ .submit block :: rest →
        ∀ reached,
          front.forM (perform (.ofDepth hosts rounds depth) ⟨prompt, false, sharesOutput⟩) state =
            .ok () reached → Answerable (.ofDepth hosts rounds depth) block.flatten reached.2 := by
  rw [run, endsFrom_forM_iff]
  simp only [endsFrom_perform_iff]
  constructor
  · intro h front block rest heq reached hreached
    exact h front _ rest heq reached hreached block rfl
  · rintro h front _ rest heq reached hreached block rfl
    exact h front block rest heq reached hreached

/-- A block is answered as it should be, or the loop breaks off because a value or an integer cannot
be written, or the evaluation of the block does not end and no answer is owed; the session is always
the one that the evaluation has left.  The loop ends well just when every block is answered. -/
theorem answers_or_breaksOff (rounds depth : Nat) (prompt : String) (sharesOutput : Bool) :
    (∀ text session,
      Answerable (.ofDepth hosts rounds depth) text session ∧
          Answers (.ofDepth hosts rounds depth) text session ∨
        ¬ Answerable (.ofDepth hosts rounds depth) text session ∧
          (BreaksOff (.ofDepth hosts rounds depth) text session ∨
            Unfinished (.ofDepth hosts rounds depth) text session)) ∧
    ∀ input state,
      EndsFrom (run (.ofDepth hosts rounds depth) ⟨prompt, false, sharesOutput⟩ input) state ↔
        ∀ front block rest, events (linesOf input) = front ++ .submit block :: rest →
          ∀ reached,
            front.forM (perform (.ofDepth hosts rounds depth) ⟨prompt, false, sharesOutput⟩) state =
              .ok () reached → Answerable (.ofDepth hosts rounds depth) block.flatten reached.2 :=
  ⟨evaluate_cases rounds depth, endsFrom_run_iff prompt sharesOutput⟩

end TinyLisp.Repl

/-! ## A list in a list -/

namespace TinyLisp

/-- A name that is bound is evaluated to its value. -/
theorem Machine.eval_name (hosts : Hosts) (rounds depth : Nat) {s : Store} {scope : ScopeId}
    {name : String} {v : Value} (h : s.lookup? scope name = some v) :
    (ofDepth hosts rounds (depth + 1)).eval scope (.identifier name) s = .ok v s :=
  Run.lookup_of_some h

namespace Repl

open Session (left)

variable {m : Machine} {text : List Char} {session : Session} {rounds depth : Nat}

/-- The session after some blocks. -/
def afterBlocks (m : Machine) (blocks : List (List Char)) (session : Session) : Session :=
  blocks.foldl (fun session block => left (evaluate m false block session)) session

theorem afterBlocks_cons (m : Machine) (block : List Char) (blocks : List (List Char))
    (session : Session) :
    afterBlocks m (block :: blocks) session =
      afterBlocks m blocks (left (evaluate m false block session)) := rfl

/-- The root binds the native that makes lists, and the name `x` to a value of this height. -/
def Nested (height : Nat) (s : Store) : Prop :=
  ∃ scope identity v, s.scopes[s.root]? = some scope ∧ scope.outer = none ∧
    scope.local? "list" = some (.native identity "list" (.primitive .list)) ∧
    scope.local? "x" = some v ∧ v.height = height

theorem left_evaluate_of_value {c : Char} {rest : List Char} (h : prepare text = c :: rest)
    {value : Value} {after : Session}
    (heval : Session.eval m (String.ofList (c :: rest)) session = .ok value after) :
    left (evaluate m false text session) = after := by
  rw [evaluate_of_value h heval]
  cases value.text m.depth with
  | ok shown => rfl
  | error stop => rfl

/-- One more list around the value. -/
theorem evalText_wrap (hosts : Hosts) (rounds depth : Nat) {s : Store} {scope : Scope}
    {identity : Identity} {v : Value} (hroot : s.scopes[s.root]? = some scope)
    (houter : scope.outer = none)
    (hlist : scope.local? "list" = some (.native identity "list" (.primitive .list)))
    (hx : scope.local? "x" = some v) :
    (Machine.ofDepth hosts rounds (depth + 3)).evalText s.root "(set! x (list x))" s =
      .ok .undefined ((s.reserve 1).2.bind s.root "x" (.pair s.nextIdentity v .nil)) := by
  have hcall : (Machine.ofDepth hosts rounds (depth + 2)).eval s.root
      (.form [.identifier "list", .identifier "x"]) s =
        .ok (.pair s.nextIdentity v .nil) (s.reserve 1).2 := by
    have hcallee :=
      Machine.eval_name hosts rounds depth (Store.lookup?_of_outermost hroot houter hlist)
    have hoperand :=
      Machine.eval_name hosts rounds depth (Store.lookup?_of_outermost hroot houter hx)
    have hoperands : [Value.identifier "x"].mapM
        ((Machine.ofDepth hosts rounds (depth + 1)).eval s.root) s = .ok [v] s := by
      rw [List.mapM_cons, Run.bind_of_ok hoperand]
      rfl
    show (Machine.ofDepth hosts rounds (depth + 1)).application s.root (.identifier "list")
      [.identifier "x"] s = _
    rw [Machine.application, Run.bind_of_ok hcallee, Run.bind_of_ok hoperands]
    rfl
  have howner : (s.reserve 1).2.owner? s.root "x" = some s.root :=
    Store.owner?_of_outermost (s := (s.reserve 1).2) hroot houter hx
  have hread : readAll (depth + 3) (tokenize "(set! x (list x))") =
      ([.form [.identifier "set!", .identifier "x",
        .form [.identifier "list", .identifier "x"]]], none) := rfl
  rw [Machine.evalText_of_one hread]
  show SpecialForm.assignment (Machine.ofDepth hosts rounds (depth + 2)) s.root
    [.identifier "x", .form [.identifier "list", .identifier "x"]] s = _
  rw [SpecialForm.assignment, Run.bind_of_ok hcall,
    Run.bind_of_ok (Run.assign_of_some _ howner)]
  rfl

theorem eval_of_evalText {source : String} {value : Value} {s : Store}
    (h : m.evalText session.store.root source session.store = .ok value s) :
    Session.eval m source session = .ok value { session with store := s } := by
  rw [Session.eval_eq, h]

/-- A name is bound in a root that binds the native that makes lists. -/
theorem nested_bind {s t : Store} {scope : Scope} {identity : Identity} {v : Value}
    (hroot : s.scopes[s.root]? = some scope) (houter : scope.outer = none)
    (hlist : scope.local? "list" = some (.native identity "list" (.primitive .list)))
    (hscopes : t.scopes = s.scopes) (htroot : t.root = s.root) :
    Nested v.height (t.bind s.root "x" v) := by
  refine ⟨scope.bind "x" v, identity, v, ?_, houter, ?_, ?_, rfl⟩
  · show (t.bind s.root "x" v).scopes[t.root]? = _
    rw [htroot, Store.getElem?_bind_self, hscopes, hroot]
    rfl
  · rw [Scope.local?_bind, if_neg (by decide), hlist]
  · rw [Scope.local?_bind, if_pos rfl]

theorem nested_wrap (hosts : Hosts) (rounds depth : Nat) {height : Nat}
    (h : Nested height session.store) :
    Nested (height + 1) (left (evaluate (.ofDepth hosts rounds (depth + 3)) false
      "(set! x (list x))".toList session)).store := by
  obtain ⟨scope, identity, v, hroot, houter, hlist, hx, rfl⟩ := h
  have hprepare : prepare "(set! x (list x))".toList = "(set! x (list x))".toList := by decide
  have heval := evalText_wrap hosts rounds depth hroot houter hlist hx
  rw [left_evaluate_of_value hprepare (eval_of_evalText heval)]
  have hheight : (Value.pair session.store.nextIdentity v .nil).height = v.height + 1 := by
    simp [Value.height, Value.isProperList]
  rw [← hheight]
  exact nested_bind hroot houter hlist rfl rfl

/-- The blocks that bind the name `x` to the empty list and then put lists around it. -/
def nesting (count : Nat) : List (List Char) :=
  "(define x ())".toList :: List.replicate count "(set! x (list x))".toList

theorem nested_wraps (hosts : Hosts) (rounds depth count : Nat) {height : Nat}
    (h : Nested height session.store) :
    Nested (height + count) (afterBlocks (.ofDepth hosts rounds (depth + 3))
      (List.replicate count "(set! x (list x))".toList) session).store := by
  induction count generalizing height session with
  | zero => exact h
  | succ count ih =>
    have hrest := ih (nested_wrap hosts rounds depth h)
    rw [Nat.add_assoc, Nat.add_comm 1 count] at hrest
    exact hrest

theorem nested_define (hosts : Hosts) (rounds depth : Nat) {scope : Scope} {identity : Identity}
    (hroot : session.store.scopes[session.store.root]? = some scope) (houter : scope.outer = none)
    (hlist : scope.local? "list" = some (.native identity "list" (.primitive .list))) :
    Nested 1 (left (evaluate (.ofDepth hosts rounds (depth + 3)) false
      "(define x ())".toList session)).store := by
  have hprepare : prepare "(define x ())".toList = "(define x ())".toList := by decide
  have heval :
      (Machine.ofDepth hosts rounds (depth + 3)).evalText session.store.root "(define x ())"
      session.store = .ok .undefined (session.store.bind session.store.root "x" .nil) := by
    have hread : readAll (depth + 3) (tokenize "(define x ())") =
      ([.form [.identifier "define", .identifier "x", .form []]], none) := rfl
    rw [Machine.evalText_of_one hread]
    rfl
  rw [left_evaluate_of_value hprepare (eval_of_evalText heval)]
  exact nested_bind hroot houter hlist rfl rfl

theorem nested_nesting (hosts : Hosts) (rounds depth count : Nat) {scope : Scope}
    {identity : Identity}
    (hroot : session.store.scopes[session.store.root]? = some scope) (houter : scope.outer = none)
    (hlist : scope.local? "list" = some (.native identity "list" (.primitive .list))) :
    Nested (1 + count)
      (afterBlocks (.ofDepth hosts rounds (depth + 3)) (nesting count) session).store := by
  rw [nesting, afterBlocks_cons]
  exact nested_wraps hosts rounds depth count
    (nested_define hosts rounds depth hroot houter hlist)

/-- A value nested deeper than the machine goes has no answer. -/
theorem breaksOff_of_nested (hosts : Hosts) {height : Nat}
    (h : Nested height session.store) (hheight : depth + 3 < height) :
    BreaksOff (.ofDepth hosts rounds (depth + 3)) ['x'] session := by
  obtain ⟨scope, identity, v, hroot, houter, -, hx, rfl⟩ := h
  have hprepare : prepare ['x'] = 'x' :: [] := by decide
  have heval : (Machine.ofDepth hosts rounds (depth + 3)).evalText session.store.root "x"
      session.store = .ok v session.store := by
    have hread : readAll (depth + 3) (tokenize "x") = ([.identifier "x"], none) := rfl
    rw [Machine.evalText_of_one hread]
    exact Machine.eval_name hosts rounds (depth + 2) (Store.lookup?_of_outermost hroot houter hx)
  rcases evaluate_value_cases hprepare (eval_of_evalText heval) with ⟨⟨hle, -⟩, -⟩ | ⟨-, hbreaks⟩
  · rw [Machine.depth_ofDepth] at hle
    exact absurd hle (Nat.not_le.2 hheight)
  · exact hbreaks

/-- The native that makes lists. -/
def makesLists : Value → Bool
  | .native _ name operation => name = "list" && operation = .primitive .list
  | _ => false

/-- The root has no scope around it and binds the native that makes lists. -/
def hasList (s : Store) : Bool :=
  s.scopes[s.root]?.any fun scope => scope.outer.isNone && (scope.local? "list").any makesLists

theorem exists_list {s : Store} (h : hasList s = true) :
    ∃ scope identity, s.scopes[s.root]? = some scope ∧ scope.outer = none ∧
      scope.local? "list" = some (.native identity "list" (.primitive .list)) := by
  obtain ⟨scope, hroot, hscope⟩ := (Option.any_eq_true _ _).1 h
  rw [Bool.and_eq_true, Option.isNone_iff_eq_none] at hscope
  obtain ⟨houter, hlist⟩ := hscope
  obtain ⟨maker, hmaker, hlist⟩ := (Option.any_eq_true _ _).1 hlist
  unfold makesLists at hlist
  split at hlist
  · rename_i identity name operation
    simp only [Bool.and_eq_true, decide_eq_true_eq] at hlist
    obtain ⟨rfl, rfl⟩ := hlist
    exact ⟨scope, identity, hroot, houter, hmaker⟩
  · cases hlist

theorem hasList_start :
    hasList (Session.start usualHosts usualRounds usualDepth .none []).store = true := by
  decide +kernel

/-- When the empty list has been put into a list as often as evaluation can go down, the next
block, which is the name of the result and nothing more, ends the loop. -/
theorem breaksOff_nesting :
    BreaksOff usualMachine ['x'] (afterBlocks usualMachine (nesting usualDepth)
      (Session.start usualHosts usualRounds usualDepth .none [])) := by
  obtain ⟨scope, identity, hroot, houter, hlist⟩ := exists_list hasList_start
  have hnested := nested_nesting usualHosts usualRounds 997 usualDepth hroot houter hlist
  exact breaksOff_of_nested usualHosts hnested (by decide)

end Repl

end TinyLisp
