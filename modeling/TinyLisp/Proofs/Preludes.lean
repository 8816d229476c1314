import Mathlib.Data.List.ReduceOption
import TinyLisp.Proofs.Resets

/-!
# Preludes with missing files

A missing file ends the loading of a prelude without an error.  The files in front
of it have been evaluated by then, and those behind it are not evaluated at all.

There are three groups.

* `presentFiles` and `filesInFront`: the files that are there, and those that are
  loaded.
* `evalFiles` and `overNatives`: files evaluated in order, and over the natives of
  a new root.
* `Session.reset_stops_at_missing`: what a reset does with a prelude of files.
-/

namespace TinyLisp

/-! ## Files in front of the first missing one -/

/-- The files of a prelude that are there. -/
def presentFiles (contents : List (Option String)) : List String :=
  contents.reduceOption

/-- The files of a prelude in front of the first missing one. -/
def filesInFront (contents : List (Option String)) : List String :=
  presentFiles (contents.takeWhile Option.isSome)

/-- The files in front of the first missing one are the first ones of those that are there. -/
theorem presentFiles_eq (contents : List (Option String)) :
    presentFiles contents =
      filesInFront contents ++ presentFiles (contents.dropWhile Option.isSome) := by
  unfold filesInFront presentFiles
  rw [← List.reduceOption_append, List.takeWhile_append_dropWhile]

/-- Files that are missing at the end hide no other file. -/
theorem presentFiles_of_missing_last (sources : List String) (count : Nat) :
    presentFiles (sources.map some ++ List.replicate count none) =
      filesInFront (sources.map some ++ List.replicate count none) := by
  have hdrop : (sources.map some ++ List.replicate count none).dropWhile Option.isSome =
      List.replicate count none := by
    rw [List.dropWhile_append_of_pos (by simp), List.dropWhile_replicate]
    rfl
  rw [presentFiles_eq, hdrop, presentFiles, List.reduceOption_replicate_none, List.append_nil]

/-! ## Loading -/

/-- Evaluates files in order. -/
def evalFiles (m : Machine) (root : ScopeId) (sources : List String) : Run Unit :=
  sources.forM fun source => do let _ ← m.evalText root source

theorem loadFiles_eq (m : Machine) (root : ScopeId) (contents : List (Option String)) :
    loadFiles m root contents = evalFiles m root (filesInFront contents) := by
  induction contents with
  | nil => rfl
  | cons content contents ih =>
    cases content with
    | none => rfl
    | some source =>
      have hfront : filesInFront (some source :: contents) =
          source :: filesInFront contents := rfl
      rw [loadFiles, ih, hfront]
      show _ = (do (do let _ ← m.evalText root source); evalFiles m root (filesInFront contents))
      rw [bind_assoc]
      rfl

/-- Files evaluated in order over the natives of a new root. -/
def overNatives (m : Machine) (registrations : List Registered) (root : ScopeId)
    (sources : List String) : Run Unit := do
  bindNatives registrations root
  evalFiles m root sources

theorem fillRoot_files (m : Machine) (registrations : List Registered) (root : ScopeId)
    (contents : List (Option String)) :
    fillRoot m (.files contents) registrations root =
      overNatives m registrations root (filesInFront contents) := by
  rw [overNatives, bindNatives, fillRoot, bind_assoc, Prelude.load, loadFiles_eq]

/-- Where some files evaluate without fail, so do the first ones of them. -/
theorem overNatives_of_append {m : Machine} {registrations : List Registered} {root : ScopeId}
    {front behind : List String} {s t : Store}
    (h : overNatives m registrations root (front ++ behind) s = .ok () t) :
    ∃ u, overNatives m registrations root front s = .ok () u ∧
      evalFiles m root behind u = .ok () t := by
  have happend : overNatives m registrations root (front ++ behind) =
      overNatives m registrations root front >>= fun _ => evalFiles m root behind := by
    have hrow : evalFiles m root (front ++ behind) =
        evalFiles m root front >>= fun _ => evalFiles m root behind := List.forM_append
    rw [overNatives, overNatives, hrow, bind_assoc]
  rw [happend] at h
  cases hfront : overNatives m registrations root front s with
  | ok _ u =>
    rw [Run.bind_of_ok hfront] at h
    exact ⟨u, rfl, h⟩
  | error stop u =>
    rw [Run.bind_of_error hfront] at h
    cases h

/-! ## Resets -/

namespace Session

/-- A reset evaluates the files in front of the first missing one, in order and over
the natives of the new root, and no others.  So it fails only where one of them does,
and it leaves out none of the files that are there if only the last ones are missing. -/
theorem reset_stops_at_missing (hosts : Hosts) (rounds depth : Nat)
    (contents : List (Option String)) (registrations : List Registered) (store : Store) :
    let session : Session := ⟨.files contents, registrations, store⟩
    let outcome := (Request.reset rounds depth).perform (Machine.ofDepth hosts) session
    let loading := fun sources => session.put (overNatives (Machine.ofDepth hosts rounds depth)
      registrations store.scopes.size sources store.withRoot)
    outcome = loading (filesInFront contents) ∧
      ((∃ after, loading (presentFiles contents) = .ok () after) →
        ∃ after, outcome = .ok () after) ∧
      ∀ (sources : List String) count, contents = sources.map some ++ List.replicate count none →
        outcome = loading (presentFiles contents) := by
  intro session outcome loading
  have houtcome : outcome = loading (filesInFront contents) := by
    unfold outcome loading
    rw [perform_reset, fillRoot_files]
  refine ⟨houtcome, ?_, ?_⟩
  · rintro ⟨after, hafter⟩
    have hpresent := eq_ok_of_put_eq_ok hafter
    rw [presentFiles_eq] at hpresent
    obtain ⟨t, hfront, -⟩ := overNatives_of_append hpresent
    refine ⟨{ session with store := t }, ?_⟩
    rw [houtcome]
    exact congrArg session.put hfront
  · rintro sources count rfl
    rw [houtcome, presentFiles_of_missing_last]

/-- The run ends well and binds a name in the root. -/
def endsBinding (name : String) : EStateM.Result Stop Store Unit → Bool
  | .ok _ store => (store.local? store.root name).isSome
  | .error .. => false

/-- A missing file suppresses the file behind it: the name that it defines is not bound
after the reset, though loading the files that are there ends well and binds it. -/
theorem missing_file_suppresses_next :
    let contents := [none, some "(define x 1)"]
    let session : Session := ⟨.files contents, [], .empty⟩
    let after := left ((Request.reset 1 9).perform (Machine.ofDepth usualHosts) session)
    after.store.local? after.store.root "x" = none ∧
      endsBinding "x" (overNatives (Machine.ofDepth usualHosts 1 9) [] 0 (presentFiles contents)
        Store.empty.withRoot) = true := by
  decide +kernel

end Session

end TinyLisp
