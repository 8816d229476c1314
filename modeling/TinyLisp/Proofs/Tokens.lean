import TinyLisp.Token

/-!
# Tokens that are found

White space never becomes an atom.

There are two groups.

* `Token.Solid` and `Lexer.Solid`: tokens, and states of a scan, without such atoms.
  Every step of a scan keeps this.
* `solid_of_mem_tokenize`: the tokens of a source.
-/

namespace TinyLisp

/-- The token is no atom of white space only. -/
def Token.Solid : Token → Prop
  | .atom text => isBlankText text.toList = false
  | _ => True

namespace Lexer

/-- All tokens found so far are solid. -/
def Solid (s : Lexer) : Prop :=
  ∀ token ∈ s.found, token.Solid

theorem solid_start : start.Solid := by
  intro token htoken
  cases htoken

theorem Solid.flush {s : Lexer} (h : s.Solid) : s.flush.Solid := by
  unfold Lexer.flush
  split
  · exact h
  · rename_i hblank
    refine List.forall_mem_cons.2 ⟨?_, h⟩
    show isBlankText (String.ofList s.pending.reverse).toList = false
    rw [String.toList_ofList, isBlankText, List.all_reverse]
    simpa [isBlankText] using hblank

theorem Solid.emit {s : Lexer} (h : s.Solid) {token : Token} (htoken : token.Solid) :
    (s.emit token).Solid :=
  List.forall_mem_cons.2 ⟨htoken, h⟩

theorem Solid.closeString {s : Lexer} (h : s.Solid) : s.closeString.Solid :=
  List.forall_mem_cons.2 ⟨trivial, h⟩

theorem Solid.step {s : Lexer} (h : s.Solid) (c : Char) : (s.step c).Solid := by
  unfold Lexer.step
  split
  · exact h
  split
  · exact h
  split
  · split
    · exact h.closeString
    · exact h.flush
  split
  · exact h
  split
  · exact h.flush.emit trivial
  split
  · exact h.flush.emit trivial
  split
  · exact h.flush
  · exact h

theorem Solid.scan {s : Lexer} (h : s.Solid) (text : List Char) : (s.scan text).Solid := by
  induction text generalizing s with
  | nil => exact h
  | cons c text ih => exact ih (h.step c)

theorem Solid.finish {s : Lexer} (h : s.Solid) : ∀ token ∈ s.finish, token.Solid := by
  intro token htoken
  unfold Lexer.finish at htoken
  split at htoken
  · exact h.closeString token (List.mem_reverse.1 htoken)
  · exact h.flush token (List.mem_reverse.1 htoken)

end Lexer

theorem solid_of_mem_tokenize (source : String) : ∀ token ∈ tokenize source, token.Solid :=
  (Lexer.solid_start.scan source.toList).finish

end TinyLisp
