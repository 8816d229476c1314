import Mathlib.Tactic.SplitIfs
import TinyLisp.Native.Host
import TinyLisp.Proofs.Evaluation.Natives
import TinyLisp.Proofs.Simulation.Natives

/-!
# The usual host functions

The host functions of the usual sessions keep to what is asked of host functions: they get
at the store through what they are handed and nothing else, and they do not depend on
identities.  So what holds for all host functions of this kind holds for them.

There are three groups.

* Doubling a value.
* The tokens of a row of strings: none is an atom of white space only, and identities
  make no difference.
* `coupled_usualHosts` and `uniform_usualHosts`: the functions themselves.
-/

namespace TinyLisp

open Attempt

variable {C : Coupling} {S : Simulation} {s : Store} {m m' : Machine} {new : Identity → Identity}

/-! ## Doubling -/

namespace HostFunction

theorem yields_twiceOf {v : Value} (h : C.value s v) : (twiceOf v).Yields (C.value s) := by
  unfold twiceOf
  split
  · exact .ok (C.value_plain rfl)
  · exact .ok (C.value_plain rfl)
  · exact .ok (C.value_plain rfl)
  · have hitems := C.value_form.1 h
    exact .ok (C.value_form.2 (Coupling.values_append.2 ⟨hitems, hitems⟩))
  · exact yields_fault

theorem follows_twiceOf (v : Value) :
    Follows S (Value.rename S.new) (twiceOf v) (twiceOf (v.rename S.new)) := by
  cases v with
  | form items => exact follows_ok (by simp)
  | embedded identity value =>
    show Follows S _ (fault (.unsupported "*" "int" _))
      (fault (.unsupported "*" "int" (Value.rename _ _).kind))
    rw [Value.kind_rename]
    exact follows_fault
  | bool | int | float | string => exact .ok _
  | nil | undefined | symbol | identifier | pair | procedure | native | callback =>
    exact follows_fault

end HostFunction

/-! ## Rows of strings -/

namespace RowScan

theorem yields_endToken (scan : RowScan) {next : Lexer} (h : next.Solid) :
    (scan.endToken next).Yields fun scan => scan.lexer.Solid := by
  unfold endToken
  split
  · exact yields_fault
  · exact .ok h

theorem solid_add {scan : RowScan} (h : scan.lexer.Solid) (member : Value) :
    (scan.add member).lexer.Solid := by
  unfold add
  split <;> exact h

theorem solid_passEnd {s : Lexer} (h : s.Solid) (text : List Char) : (passEnd s text).Solid := by
  unfold passEnd
  split
  · exact h.step _
  · exact h.flush

theorem yields_step {scan : RowScan} (h : scan.lexer.Solid) (member : Value) :
    (scan.step member).Yields fun scan => scan.lexer.Solid := by
  unfold step
  split
  · exact .ok (solid_add h member)
  · split
    · split
      · exact .ok (h.step '\\')
      · split
        · exact yields_endToken scan (solid_passEnd h _)
        · exact .ok (solid_add h _)
    · split
      · exact .ok (solid_add h _)
      · exact yields_fault

theorem yields_scan (row : List Value) : (start.scan row).Yields fun scan => scan.lexer.Solid :=
  yields_foldlM Lexer.solid_start fun member _ _ h => yields_step h member

theorem yields_finish {scan : RowScan} (h : scan.lexer.Solid) :
    scan.finish.Yields fun tokens => ∀ token ∈ tokens, token.Solid := by
  unfold finish
  split
  · exact yields_fault
  · exact .ok h.finish

/-- A row is scanned alike with other identities: only strings and kinds count. -/
@[simp] theorem step_rename (scan : RowScan) (member : Value) :
    scan.step (member.rename new) = scan.step member := by
  cases member <;> simp [step, add, Value.kind]

@[simp] theorem scan_rename (scan : RowScan) (row : List Value) :
    scan.scan (row.map (Value.rename new)) = scan.scan row := by
  unfold RowScan.scan
  rw [List.foldlM_map]
  simp only [step_rename]

end RowScan

namespace HostFunction

/-- No row of strings has an atom of white space only. -/
theorem yields_tokensOf (source : Value) :
    (tokensOf source).Yields fun tokens => ∀ token ∈ tokens, token.Solid := by
  unfold tokensOf
  split
  · exact .ok (solid_of_mem_tokenize _)
  · exact .ok fun token htoken => by cases htoken
  · exact yields_bind (RowScan.yields_scan _) fun _ h => RowScan.yields_finish h
  · apply yields_bind (RowScan.yields_scan _)
    intro scanned h
    split
    · exact RowScan.yields_finish h
    · exact yields_wrongType
  · exact yields_fault

@[simp] theorem tokensOf_rename (source : Value) :
    tokensOf (source.rename new) = tokensOf source := by
  cases source with
  | pair cell head tail =>
    have hspine := @Value.spine_rename new (.pair cell head tail)
    have hproper := @Value.isProperList_rename new (.pair cell head tail)
    rw [Value.rename] at hspine hproper ⊢
    simp only [tokensOf, hspine, hproper, RowScan.scan_rename]
  | form items => simp [tokensOf]
  | embedded identity value => simp [tokensOf, Value.kind]
  | nil | undefined | bool | int | float | string | symbol | identifier | procedure | native
  | callback => rfl

theorem coupled_tokensOf (source : Value) :
    Run.Coupled C s (fun _ tokens => ∀ token ∈ tokens, token.Solid)
      (Run.ofAttempt (tokensOf source)) (Run.ofAttempt (tokensOf source)) :=
  Run.coupled_ofAttempt (yields_tokensOf source) fun _ _ _ => id

/-- A source is read in the root. -/
theorem coupled_evalSource (h : m.Coupled C m') {identity : Identity} {own : String}
    (hnative : C.value s (.native identity own (.host evalText))) (source : Value) :
    Run.Coupled C s C.value (evalSource m source) (evalSource m' source) := by
  apply Run.coupled_read (·.root)
    (fun root => do m.evalTokens root (← Run.ofAttempt (tokensOf source)))
    (fun root => do m'.evalTokens root (← Run.ofAttempt (tokensOf source)))
  intro t u hstores hlater
  refine ⟨(C.same hstores).1, ?_⟩
  apply Run.coupled_bind (coupled_tokensOf source)
  intro w tokens hlater' htokens
  apply h.evalTokens
  intro tree htree
  exact C.source_later hlater' (C.read hstores (C.value_later hlater hnative) rfl htokens htree)

theorem follows_evalSource (h : m.Follows S m') (source : Value) :
    Run.Follows S (Value.rename S.new) (evalSource m source)
      (evalSource m' (source.rename S.new)) := by
  let next (m : Machine) (source : Value) (root : ScopeId) : Run Value := do
    m.evalTokens root (← Run.ofAttempt (tokensOf source))
  apply Run.follows_read (g := id) (·.root) (next m source) (next m' (source.rename S.new)) S.root
  intro root
  show Run.Follows S _ (Run.ofAttempt (tokensOf source) >>= _) (Run.ofAttempt (tokensOf _) >>= _)
  rw [tokensOf_rename]
  apply Run.follows_bind (Run.follows_ofAttempt (follows_silent (yields_tokensOf source).silent))
  exact fun tokens => h.evalTokens root tokens

end HostFunction

/-! ## The functions -/

open Native

instance coupled_usualHosts : usualHosts.Coupled where
  coupled {C m m' s identity own function arguments} h hnative harguments := by
    unfold usualHosts
    dsimp only
    split_ifs with htwice hcount hpair htruth hfail hrefuse htruncate heval
    · exact coupled_attemptOne (fun ha => HostFunction.yields_twiceOf ha) s arguments harguments
    · exact coupled_variadic (fun _ => Run.coupled_value (C.value_plain rfl)) s arguments harguments
    · apply coupled_nullary _ s arguments harguments
      intro t
      have hlast : C.values t [.int 2] :=
        Coupling.values_cons.2 ⟨C.value_plain rfl, Coupling.values_nil⟩
      exact Run.coupled_newList (Coupling.values_cons.2 ⟨C.value_plain rfl, hlast⟩)
    · exact coupled_nullary (Run.coupled_value (C.value_plain rfl)) s arguments harguments
    · exact coupled_variadic (fun _ => Run.coupled_fault) s arguments harguments
    · exact coupled_variadic (fun _ => Run.coupled_fail rfl) s arguments harguments
    · exact coupled_compute silent_truncated (fun _ => rfl) s arguments harguments
    · subst heval
      rcases arguments with _ | ⟨source, _ | ⟨b, rest⟩⟩
      · exact Run.coupled_fault
      · exact HostFunction.coupled_evalSource h hnative source
      · exact Run.coupled_fault
    · exact coupled_variadic (fun _ => Run.coupled_value (C.value_plain rfl)) s arguments harguments

instance uniform_usualHosts : usualHosts.Uniform where
  follows {S m m'} h function := by
    unfold usualHosts
    dsimp only
    split_ifs with htwice hcount hpair htruth hfail hrefuse htruncate heval
    · exact follows_attemptOne HostFunction.follows_twiceOf
    · apply follows_variadic
      intro arguments
      rw [List.length_map]
      exact Run.follows_plain rfl
    · exact follows_nullary (Run.follows_newList [.int 1, .int 2])
    · exact follows_nullary (Run.follows_plain rfl)
    · exact follows_variadic fun _ => Run.follows_fault
    · exact follows_variadic fun _ => Run.follows_fail rfl
    · exact follows_compute silent_truncated truncated_rename fun _ => rfl
    · exact follows_unary (HostFunction.follows_evalSource h)
    · exact follows_variadic fun _ => Run.follows_plain rfl

end TinyLisp
