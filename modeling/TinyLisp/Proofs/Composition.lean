import TinyLisp.Proofs.Scanning
import TinyLisp.Proofs.Sessions

/-!
# Sources one after the other

A source in two parts, with white space between them, does in a session what the
first part and then the second one do.  The front must leave no string and no
escape open and must be read to its end; the second part may break off anywhere.

There are four groups.

* Scanning on: `Lexer.behind` puts tokens in front of a scan, which goes on as if
  they were not there, so `Lexer.tokenize_separated` cuts each part on its own.
* Reading on: `readAll_append` reads the expressions of the first row and then
  those of the second one.
* Evaluating on: `Machine.evalTokens_append`, and `Interaction.onRoot_bind` for the
  root of the session, which no evaluation moves.
* `Session.eval_separated`: both parts as one source.
-/

namespace TinyLisp

variable {hosts : Hosts}

/-! ## Scanning on -/

namespace Lexer

/-- The same state behind other tokens. -/
def behind (s : Lexer) (tokens : List Token) : Lexer :=
  { s with found := s.found ++ tokens.reverse }

theorem flush_behind (s : Lexer) (tokens : List Token) :
    (s.behind tokens).flush = s.flush.behind tokens := by
  unfold flush behind
  split <;> rfl

/-- A step does not depend on the tokens found before. -/
theorem step_behind (s : Lexer) (tokens : List Token) (c : Char) :
    (s.behind tokens).step c = (s.step c).behind tokens := by
  unfold step
  rw [flush_behind]
  have hescaped : (s.behind tokens).escaped = s.escaped := rfl
  have hstring : (s.behind tokens).inString = s.inString := rfl
  rw [hescaped, hstring]
  repeat' split
  all_goals rfl

theorem scan_behind (s : Lexer) (tokens : List Token) (text : List Char) :
    (s.behind tokens).scan text = (s.scan text).behind tokens := by
  induction text generalizing s with
  | nil => rfl
  | cons c text ih => rw [scan_cons, scan_cons, step_behind, ih]

theorem finish_behind (s : Lexer) (tokens : List Token) :
    (s.behind tokens).finish = tokens ++ s.finish := by
  unfold finish
  rw [flush_behind]
  show (if s.inString then _ else _) = _
  split <;> simp [behind, closeString]

/-- Outside strings a separator ends the pending atom. -/
theorem step_separator {s : Lexer} {c : Char} (hstring : s.inString = false)
    (hescaped : s.escaped = false) (hc : isSeparator c = true) : s.step c = s.flush := by
  simp only [isSeparator, separators, List.contains_eq_mem, List.mem_cons, List.not_mem_nil,
    or_false, decide_eq_true_eq] at hc
  rcases hc with rfl | rfl | rfl | rfl <;> simp [step, isSeparator, separators, hstring, hescaped]

theorem flush_eq_behind {s : Lexer} (hstring : s.inString = false) (hescaped : s.escaped = false) :
    s.flush = start.behind s.finish := by
  rw [finish, hstring]
  obtain ⟨found, pending, inString, escaped⟩ := s
  subst hstring hescaped
  unfold flush behind start
  split <;> simp

/-- Two texts with a separator between them are cut on their own, when the first
one leaves no string and no escape open. -/
theorem tokenize_separated {front : String} {c : Char} (rest : String)
    (hstring : (start.scan front.toList).inString = false)
    (hescaped : (start.scan front.toList).escaped = false) (hc : isSeparator c = true) :
    tokenize (front ++ String.singleton c ++ rest) = tokenize front ++ tokenize rest := by
  have hsource : (front ++ String.singleton c ++ rest).toList =
      front.toList ++ c :: rest.toList := by simp
  rw [tokenize, hsource, scan_append, scan_cons, step_separator hstring hescaped hc,
    flush_eq_behind hstring hescaped, scan_behind, finish_behind]
  rfl

end Lexer

/-! ## Reading on -/

/-- What is read inside open forms does not depend on the tokens behind it. -/
theorem readInside_append {room : Nat} {items : List Value} {outer : List (List Value)}
    {tokens left : List Token} {tree : Value} (rest : List Token)
    (h : readInside room items outer tokens = (.ok tree, left)) :
    readInside room items outer (tokens ++ rest) = (.ok tree, left ++ rest) := by
  fun_induction readInside room items outer tokens with
  | case1 => cases h
  | case2 room items tokens =>
    cases h
    rfl
  | case3 room items tokens around outer ih => exact ih h
  | case4 => cases h
  | case5 items outer tokens room ih => exact ih h
  | case6 room items outer text tokens ih => exact ih h
  | case7 room items outer text tokens ih => exact ih h

theorem readOne_append {limit : Nat} {tokens left : List Token} {tree : Value} (rest : List Token)
    (h : readOne limit tokens = (.ok tree, left)) :
    readOne limit (tokens ++ rest) = (.ok tree, left ++ rest) := by
  match tokens with
  | [] | .closing :: _ => cases h
  | .string text :: tokens | .atom text :: tokens =>
    cases h
    rfl
  | .opening :: tokens => exact readInside_append rest h

/-- Any two counts that leave room for all tokens give the same. -/
theorem readMany_congr (limit : Nat) {count count' : Nat} {tokens : List Token}
    (h : tokens.length ≤ count) (h' : tokens.length ≤ count') :
    readMany limit count tokens = readMany limit count' tokens := by
  induction count generalizing count' tokens with
  | zero =>
    obtain rfl := List.length_eq_zero_iff.1 (Nat.le_zero.1 h)
    cases count' <;> rfl
  | succ count ih =>
    match count', tokens with
    | 0, [] | count' + 1, [] => rfl
    | count' + 1, token :: tokens =>
      have hlength := length_readOne limit (List.cons_ne_nil token tokens)
      rw [readMany, readMany]
      generalize readOne limit (token :: tokens) = result at hlength
      obtain ⟨_ | tree, left⟩ := result
      · rfl
      · simp only [List.length_cons] at h h' hlength
        have hleft : readMany limit count left = readMany limit count' left :=
          ih (by omega) (by omega)
        simp only [hleft]

/-- The first expression, and the others behind it. -/
theorem readAll_of_readOne {limit : Nat} {tokens left : List Token} {tree : Value}
    (h : readOne limit tokens = (.ok tree, left)) :
    readAll limit tokens = (tree :: (readAll limit left).1, (readAll limit left).2) := by
  match tokens with
  | [] => cases h
  | token :: tokens =>
    have hlength := length_readOne limit (List.cons_ne_nil token tokens)
    rw [h] at hlength
    have hcount : readMany limit tokens.length left = readAll limit left :=
      readMany_congr limit (Nat.le_of_lt_succ hlength) (Nat.le_refl _)
    rw [readAll, List.length_cons, readMany, h]
    simp only [hcount]

/-- A row that is not read to its end, because its front is no expression. -/
theorem readAll_of_readOne_error {limit : Nat} {tokens left : List Token} {stop : Stop}
    (hne : tokens ≠ []) (h : readOne limit tokens = (.error stop, left)) :
    readAll limit tokens = ([], some stop) := by
  match tokens with
  | [] => exact absurd rfl hne
  | token :: tokens => rw [readAll, List.length_cons, readMany, h]

/-- Behind a row that is read to its end, reading goes on with the next one. -/
theorem readAll_append {limit : Nat} {front : List Token} (rest : List Token)
    (h : (readAll limit front).2 = none) :
    readAll limit (front ++ rest) =
      ((readAll limit front).1 ++ (readAll limit rest).1, (readAll limit rest).2) := by
  generalize hn : front.length = n
  induction n using Nat.strongRecOn generalizing front with
  | ind n ih =>
    subst hn
    by_cases hne : front = []
    · subst hne
      rfl
    · have hlength := length_readOne limit hne
      rcases hread : readOne limit front with ⟨_ | tree, left⟩
      · rw [readAll_of_readOne_error hne hread] at h
        cases h
      · rw [hread] at hlength
        rw [readAll_of_readOne hread] at h ⊢
        rw [readAll_of_readOne (readOne_append rest hread), ih left.length hlength h rfl]
        rfl

/-! ## Evaluating on -/

/-- Where there is an item, the value before it does not matter. -/
theorem Run.lastOf_of_ne_nil {α : Type} {step : α → Run Value} {items : List α}
    (h : items ≠ []) (before before' : Value) :
    lastOf before step items = lastOf before' step items := by
  match items with
  | [] => exact absurd rfl h
  | item :: items => rfl

namespace Machine

variable {m : Machine} {scope : ScopeId}

/-- Expressions behind others: the value is that of the last one of all. -/
theorem evalBody_append (front rest : List Value) :
    m.evalBody scope (front ++ rest) = (do
      let first ← m.evalBody scope front
      let second ← m.evalBody scope rest
      return if rest.isEmpty then first else second) := by
  unfold evalBody
  rw [Run.lastOf_append]
  congr 1
  funext first
  cases rest with
  | nil => rfl
  | cons next rest =>
    rw [Run.lastOf_of_ne_nil (List.cons_ne_nil next rest) first .undefined]
    simp

/-- Tokens behind others that are read to their end. -/
theorem evalTokens_append {front : List Token} (rest : List Token)
    (h : (readAll m.depth front).2 = none) :
    m.evalTokens scope (front ++ rest) = (do
      let first ← m.evalTokens scope front
      let second ← m.evalTokens scope rest
      return if (readAll m.depth rest).1.isEmpty then first else second) := by
  unfold evalTokens
  rw [readAll_append rest h]
  generalize readAll m.depth front = found at h ⊢
  generalize readAll m.depth rest = found'
  obtain ⟨trees, stop⟩ := found
  obtain ⟨trees', stop'⟩ := found'
  obtain rfl : stop = none := h
  simp only [evalBody_append, bind_assoc, pure_bind]
  congr 1
  funext first
  congr 1
  funext second
  cases stop' with
  | none => rfl
  | some stop => rfl

/-- A source with one expression. -/
theorem evalText_of_one {source : String} {expression : Value}
    (h : readAll m.depth (tokenize source) = ([expression], none)) :
    m.evalText scope source = m.eval scope expression := by
  unfold evalText evalTokens
  rw [h]
  simp [evalBody, Run.lastOf]

/-- Evaluation leaves the root of the session where it is. -/
theorem root_evalText (hosts : Hosts) [hosts.Coupled] (rounds depth : Nat) (scope : ScopeId)
    (source : String) (s : Store) :
    (Run.left ((ofDepth hosts rounds depth).evalText scope source s)).root = s.root := by
  let c : Confinement := ⟨s, fun _ => True, fun _ _ _ _ => trivial⟩
  have hscope : c.Allows s scope := .inl trivial
  have hagree := (agree_ofDepth (D := c.discipline) hosts rounds depth).evalText source hscope
  have hkeeps : c.Keeps _ := (hagree s c.keeps_start (Store.grows_refl s)).2.left.1
  exact hkeeps.root

end Machine

namespace Interaction

variable {α β : Type} {session : Session} {t : Store}

theorem onStore_of_ok {run : Run α} {a : α} (h : run session.store = .ok a t) :
    onStore run session = .ok a { session with store := t } := by
  rw [onStore, h]

theorem onStore_of_error {run : Run α} {stop : Stop} (h : run session.store = .error stop t) :
    onStore run session = .error stop { session with store := t } := by
  rw [onStore, h]

theorem onRoot_eq (run : ScopeId → Run α) (session : Session) :
    onRoot run session = onStore (run session.store.root) session := rfl

/-- One run in the root after another, the first of which leaves the root where it is. -/
theorem onRoot_bind {run : ScopeId → Run α} {next : α → ScopeId → Run β}
    (h : ∀ s, (Run.left (run s.root s)).root = s.root) :
    onRoot (fun root => do let a ← run root; next a root) =
      (do let a ← onRoot run; onRoot (next a)) := by
  funext session
  have hroot := h session.store
  cases hrun : run session.store.root session.store with
  | ok a t =>
    rw [hrun] at hroot
    replace hroot : t.root = session.store.root := hroot
    have hfirst : onRoot run session = .ok a { session with store := t } := onStore_of_ok hrun
    have hnext : onStore (do let a ← run session.store.root; next a session.store.root) session =
        onStore (next a session.store.root) { session with store := t } := by
      unfold onStore
      rw [Run.bind_of_ok hrun]
    rw [onRoot_eq, hnext, Run.bind_of_ok hfirst, onRoot_eq, hroot]
  | error stop t =>
    have hfirst : onRoot run session = .error stop { session with store := t } :=
      onStore_of_error hrun
    rw [onRoot_eq, onStore_of_error (Run.bind_of_error hrun), Run.bind_of_error hfirst]

end Interaction

namespace Session

variable {rounds depth : Nat} {front rest : String}

/-- Evaluating the tokens of two sources is evaluating one source after the other. -/
theorem onRoot_tokens [hosts.Coupled] (hread : (readAll depth (tokenize front)).2 = none) :
    Interaction.onRoot (fun root =>
        (Machine.ofDepth hosts rounds depth).evalTokens root
          (tokenize front ++ tokenize rest)) = (do
      let first ← eval (.ofDepth hosts rounds depth) front
      let second ← eval (.ofDepth hosts rounds depth) rest
      return if (readAll depth (tokenize rest)).1.isEmpty then first else second) := by
  have hroot := fun source (s : Store) => Machine.root_evalText hosts rounds depth s.root source s
  rw [← @Machine.depth_ofDepth hosts rounds depth] at hread
  simp only [Machine.evalTokens_append _ hread]
  rw [Interaction.onRoot_bind (hroot front)]
  congr 1
  funext first
  rw [Interaction.onRoot_bind (hroot rest), Machine.depth_ofDepth]
  rfl

/-- A source that cannot be read to its end is evaluated up to where it can be read. -/
theorem eval_unreadable {stop : Stop} (h : (readAll depth (tokenize rest)).2 = some stop) :
    eval (.ofDepth hosts rounds depth) rest = (Interaction.onRoot fun root => do
      let _ ← (Machine.ofDepth hosts rounds depth).evalBody root (readAll depth (tokenize rest)).1
      throw stop) := by
  unfold eval Machine.evalText Machine.evalTokens
  rw [Machine.depth_ofDepth]
  generalize readAll depth (tokenize rest) = found at h ⊢
  obtain ⟨trees, ending⟩ := found
  obtain rfl : ending = some stop := h
  rfl

/-- Two sources with white space between them are one source.  The first one is evaluated and
then, if that did not stop, the second one in the session that is left, with its scopes and its
printed text.  The value is that of the second one if there is an expression in it.  What cannot be
read of it stops the evaluation only behind all expressions that can. -/
theorem eval_separated [hosts.Coupled] (rounds depth : Nat) (front : String) (c : Char)
    (rest : String) (hstring : (Lexer.start.scan front.toList).inString = false)
    (hescaped : (Lexer.start.scan front.toList).escaped = false)
    (hread : (readAll depth (tokenize front)).2 = none) (hc : Lexer.isSeparator c = true) :
    eval (.ofDepth hosts rounds depth) (front ++ String.singleton c ++ rest) = (do
      let first ← eval (.ofDepth hosts rounds depth) front
      let second ← eval (.ofDepth hosts rounds depth) rest
      return if (readAll depth (tokenize rest)).1.isEmpty then first else second) ∧
    ∀ stop, (readAll depth (tokenize rest)).2 = some stop →
      eval (.ofDepth hosts rounds depth) rest = (Interaction.onRoot fun root => do
        let _ ← (Machine.ofDepth hosts rounds depth).evalBody root
          (readAll depth (tokenize rest)).1
        throw stop) := by
  refine ⟨?_, fun stop hstop => eval_unreadable hstop⟩
  rw [← onRoot_tokens hread, ← Lexer.tokenize_separated rest hstring hescaped hc]
  rfl

/-- A definition and an assignment, and behind a line feed a source that breaks off inside a form
after one expression. -/
theorem eval_separated_assignment :
    usualHosts.Coupled ∧
    let front := "(define \\( \"a (b\") (set! \\( 1)"
    let rest := "\\( (car"
    (Lexer.start.scan front.toList).inString = false ∧
      (Lexer.start.scan front.toList).escaped = false ∧
      (readAll 9 (tokenize front)).2 = none ∧ Lexer.isSeparator '\n' = true ∧
      (readAll 9 (tokenize rest)).1.isEmpty = false ∧ (readAll 9 (tokenize rest)).2.isSome = true ∧
      eval (.ofDepth usualHosts 5 9) (front ++ String.singleton '\n' ++ rest) = (do
        let _ ← eval (.ofDepth usualHosts 5 9) front
        eval (.ofDepth usualHosts 5 9) rest) := by
  refine ⟨inferInstance, ?_⟩
  intro front rest
  have hrest : (readAll 9 (tokenize rest)).1.isEmpty = false := by decide
  have hsplit := (eval_separated 5 9 front '\n' rest (by decide) (by decide) (by decide)
    (by decide) : eval (.ofDepth usualHosts 5 9) _ = _ ∧ _).1
  rw [hrest] at hsplit
  refine ⟨by decide, by decide, by decide, by decide, hrest, by decide, ?_⟩
  simpa only [Bool.false_eq_true, if_false, bind_pure] using hsplit

end Session

end TinyLisp
