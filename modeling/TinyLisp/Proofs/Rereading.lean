import TinyLisp.Proofs.Composition
import TinyLisp.Proofs.Expressions
import TinyLisp.Proofs.Names
import TinyLisp.Proofs.Quotation

/-!
# Printed results read back

A result that is data is written as text, and this text, quoted and evaluated, gives
an equal result.  The negative zero is written like the other zero, so what comes back
is equal and not always the same.

There are five groups.

* `Restores`: numbers that are written alike, one of which is read as itself.
* `IsDatum`: finite numbers, strings and symbols in lists, and the tree behind each.
* `Session.eval_quote`: the text of a tree, quoted and evaluated.
* `Value.Rereads` and `Value.IsDatum.rereads`: the way there and back.
* `Session.results_read_back`: the results of any session, together with how the two
  printers agree and how every value of evaluation is written.
-/

namespace TinyLisp

variable {hosts : Hosts}

open Value

/-! ## Numbers -/

/-- A finite double is equal to itself. -/
theorem Double.beq_self_of_isFinite {x : Float} (h : x.isFinite = true) : (x == x) = true := by
  show (x.toModel.unpack.compare x.toModel.unpack == some .eq) = true
  replace h : x.toModel.unpack.isFinite = true := h
  generalize x.toModel.unpack = parts at h ⊢
  cases parts with
  | zero sign => rfl
  | finite sign m e hm =>
    cases sign <;> simp [Float.Model.UnpackedFloat.compare]
  | infinity sign => cases h
  | notANumber => cases h

/-- The number `x` is read as itself from the text of `y` and is equal to it. -/
structure Restores (x y : Float) : Prop where
  readsBack : (float x).ReadsBack
  text_eq : Double.text x = Double.text y
  equal : (y == x) = true

/-- The negative zero comes back as the other zero, every other finite number as itself. -/
theorem exists_restores {y : Float} (h : y.isFinite = true) : ∃ x, Restores x y := by
  by_cases hzero : y = -0.0
  · subst hzero
    exact ⟨0.0, ⟨by decide, by decide⟩, by decide, by decide⟩
  · exact ⟨y, ⟨h, hzero⟩, rfl, Double.beq_self_of_isFinite h⟩

/-! ## Data -/

namespace Value

/-- Finite numbers, strings and symbols, and lists of them that are proper at every level. -/
inductive IsDatum : Value → Prop where
  | nil : IsDatum nil
  | float {value : Float} (hfinite : value.isFinite = true) : IsDatum (float value)
  | string (text : String) : IsDatum (string text)
  | symbol (name : String) : IsDatum (symbol name)
  | pair (cell : Identity) {head tail : Value} (hhead : IsDatum head) (htail : IsDatum tail)
      (hproper : tail.isProperList = true) : IsDatum (pair cell head tail)

/-- Behind legible data stands a tree whose leaves all read back. -/
theorem IsDatum.exists_tree {data : Value} (h : data.IsDatum) (hnames : data.Legible) :
    ∃ tree, tree.IsSyntax ∧ Quotes Restores tree data ∧ ∀ leaf ∈ tree.leaves, leaf.ReadsBack := by
  induction h with
  | nil =>
    have hnone : ∀ item ∈ ([] : List Value), item.IsSyntax := fun item hitem => by cases hitem
    exact ⟨form [], .form hnone, .nil, fun leaf hleaf => by cases hleaf⟩
  | float hfinite =>
    obtain ⟨x, hx⟩ := exists_restores hfinite
    exact ⟨Value.float x, .float x, .float hx, List.forall_mem_singleton.2 hx.readsBack⟩
  | string text =>
    exact ⟨Value.string text, .string text, .string text, List.forall_mem_singleton.2 trivial⟩
  | symbol name =>
    have hname : (identifier name).ReadsBack := hnames name (List.mem_singleton.2 rfl)
    exact ⟨identifier name, .identifier name, .symbol name, List.forall_mem_singleton.2 hname⟩
  | pair cell hhead htail hproper ihhead ihtail =>
    obtain ⟨hnamesHead, hnamesTail⟩ := legible_pair.1 hnames
    obtain ⟨item, hitem, hquotes, hleaves⟩ := ihhead hnamesHead
    obtain ⟨rest, hrest, hquotesRest, hleavesRest⟩ := ihtail hnamesTail
    obtain ⟨items, rfl⟩ := hquotesRest.exists_form hproper
    cases hrest with
    | form hitems =>
      refine ⟨form (item :: items), .form (List.forall_mem_cons.2 ⟨hitem, hitems⟩),
        .cons cell hquotes hquotesRest, ?_⟩
      rw [leaves, leavesOfAll]
      exact List.forall_mem_append.2 ⟨hleaves, hleavesRest⟩

end Value

/-! ## Quoted text -/

/-- A tree in a quotation. -/
def quotationOf (tree : Value) : Value :=
  form [identifier "quote", tree]

theorem readsBack_quote : (identifier "quote").ReadsBack := by
  refine ⟨by decide, by decide, ?_⟩
  rw [← Numeral.isSome_read?]
  decide

theorem isSyntax_quotationOf {tree : Value} (h : tree.IsSyntax) : (quotationOf tree).IsSyntax :=
  .form (List.forall_mem_cons.2 ⟨.identifier "quote", List.forall_mem_singleton.2 h⟩)

theorem depth_quotationOf (tree : Value) : (quotationOf tree).depth = tree.depth + 1 := by
  have := depth_pos tree
  simp only [quotationOf, depth, depthOfAll]
  omega

/-- The text of a tree in a quotation is cut into the tokens of the quotation. -/
theorem lexes_quotationOf {tree : Value} {text : List Char} (h : Lexer.Lexes text tree.tokens) :
    Lexer.Lexes ("(quote ".toList ++ text ++ ")".toList) (quotationOf tree).tokens := by
  have hname : Lexer.Lexes "quote".toList (identifier "quote").tokens :=
    Lexer.lexes_escapeSymbol "quote".toList
  have hrow := Lexer.lexes_parenthesised (Lexer.lexes_space hname h)
  have htokens : (quotationOf tree).tokens =
      .opening :: (((identifier "quote").tokens ++ tree.tokens) ++ [.closing]) := by
    simp [quotationOf, tokens, tokensOfAll]
  rw [htokens]
  exact hrow

/-- A quotation is read back from the text of its tree, if all leaves of the tree read back. -/
theorem readAll_quotationOf {tree : Value} (h : tree.IsSyntax) {limit : Nat}
    (hdepth : tree.depth < limit) (hleaves : ∀ leaf ∈ tree.leaves, leaf.ReadsBack)
    {text : List Char} (hlexes : Lexer.Lexes text tree.tokens) :
    readAll limit (tokenize ("(quote " ++ String.ofList text ++ ")")) =
      ([quotationOf tree], none) := by
  have hsource : "(quote " ++ String.ofList text ++ ")" =
      String.ofList ("(quote ".toList ++ text ++ ")".toList) := by
    simp [← String.toList_inj]
  have hself : (quotationOf tree).reread = [quotationOf tree] := by
    refine (reread_eq_self (isSyntax_quotationOf h)).2 ?_
    rw [quotationOf, leaves, leavesOfAll, leavesOfAll, leavesOfAll, List.append_nil]
    exact List.forall_mem_cons.2 ⟨readsBack_quote, hleaves⟩
  have hone : readOne limit (quotationOf tree).tokens = (.ok (quotationOf tree), []) :=
    (readOne_tokens (isSyntax_quotationOf h) (by rw [depth_quotationOf]; omega)).2 hself
  rw [hsource, Lexer.tokenize_of_lexes (lexes_quotationOf hlexes), readAll_of_readOne hone]
  rfl

/-- Evaluating a quotation quotes its tree, one level below. -/
theorem Machine.eval_quotationOf (rounds limit : Nat) (scope : ScopeId) (tree : Value) :
    (ofDepth hosts rounds (limit + 1)).eval scope (quotationOf tree) =
      SpecialForm.quoted limit tree := by
  have hquoted : (ofDepth hosts rounds (limit + 1)).eval scope (quotationOf tree) =
    SpecialForm.quoted (ofDepth hosts rounds limit).depth tree := rfl
  rw [hquoted, depth_ofDepth]

/-- In any session the text of a tree, quoted, gives what the tree stands for. -/
theorem Session.eval_quote {tree : Value} (h : tree.IsSyntax)
    (hleaves : ∀ leaf ∈ tree.leaves, leaf.ReadsBack) {limit : Nat} (hdepth : tree.depth < limit)
    {text : List Char} (hlexes : Lexer.Lexes text tree.tokens) (rounds : Nat) (session : Session) :
    ∃ result after,
      eval (.ofDepth hosts rounds limit) ("(quote " ++ String.ofList text ++ ")") session =
        .ok result after ∧ Quotes Eq tree result := by
  obtain ⟨limit, rfl⟩ := Nat.exists_eq_add_of_le' (Nat.lt_of_le_of_lt (Nat.zero_le _) hdepth)
  obtain ⟨result, store, hrun, hquotes⟩ := exists_quoted h (Nat.le_of_lt_succ hdepth) session.store
  have hread := readAll_quotationOf h hdepth hleaves hlexes
  rw [← @Machine.depth_ofDepth hosts rounds (limit + 1)] at hread
  refine ⟨result, { session with store := store }, ?_, hquotes⟩
  rw [eval_eq, Machine.evalText_of_one hread, Machine.eval_quotationOf, hrun]

/-! ## There and back -/

namespace Value

/-- The value is written as a text that, quoted and evaluated in any session, gives an equal value,
wherever the recursion limit leaves room for it. -/
def Rereads (hosts : Hosts) (value : Value) : Prop :=
  ∀ (rounds limit : Nat) (session : Session), value.height < limit →
    ∃ text result after, value.text limit = .ok text ∧
      Session.eval (.ofDepth hosts rounds limit) ("(quote " ++ text ++ ")") session =
        .ok result after ∧
      value.equal limit result = some true

theorem IsDatum.rereads {data : Value} (h : data.IsDatum) (hnames : data.Legible) :
    data.Rereads hosts := by
  intro rounds limit session hlimit
  obtain ⟨tree, htree, hquotes, hleaves⟩ := h.exists_tree hnames
  rw [hquotes.height] at hlimit
  obtain ⟨text, hsource, hlexes⟩ := exists_source htree (Nat.le_of_lt hlimit)
  obtain ⟨result, after, heval, hresult⟩ :=
    Session.eval_quote htree hleaves hlimit hlexes rounds session
  refine ⟨String.ofList text, result, after, ?_, heval, ?_⟩
  · rw [Value.text, hquotes.write_eq_source (fun _ _ hx => hx.text_eq), hsource]
    rfl
  · have hnumbers : ∀ x y z, Restores x y → x = z → (y == z) = true := by
      rintro x y _ hx rfl
      exact hx.equal
    exact hquotes.equal_eq hnumbers hresult (Nat.le_of_lt hlimit)

/-- A value of evaluation is written as one expression. -/
theorem IsRuntime.exists_text {value : Value} (h : value.IsRuntime) (hshort : value.Short)
    {limit : Nat} (hlimit : value.height ≤ limit) :
    ∃ text, value.text limit = .ok text ∧ Complete (tokenize text) := by
  obtain ⟨text, hwrite⟩ := exists_write_iff.2 ⟨hlimit, hshort⟩
  obtain ⟨tokens, hlexes, hcomplete⟩ := whole_of_write h hwrite
  refine ⟨String.ofList text, by rw [Value.text, hwrite]; rfl, ?_⟩
  rwa [Lexer.tokenize_of_lexes hlexes]

end Value

/-- Quoting a tree gives data that are written as the tree is. -/
theorem SpecialForm.exists_quoted_write_eq_source {tree : Value} (h : tree.IsSyntax) {limit : Nat}
    (hlimit : tree.depth ≤ limit) (s : Store) :
    ∃ data t, quoted limit tree s = .ok data t ∧ ∀ limit, data.write limit = tree.source limit := by
  obtain ⟨data, t, hrun, hquotes⟩ := exists_quoted h hlimit s
  exact ⟨data, t, hrun, hquotes.write_eq_source fun _ _ hx => congrArg Double.text hx⟩

/-! ## Results -/

/-- In a session that has begun with any prelude and registrations and has been asked for anything
since, every name in a result or behind a binding reads back, and a result that is data is read
back as an equal one.  What quoting makes of syntax is written as the syntax is, and whatever
evaluation works with is written as one expression, unless one of its integers is too long to be
written. -/
theorem Session.results_read_back (hosts : Hosts) [hosts.Coupled] (rounds depth : Nat)
    (prelude : Prelude) (registrations : List Registration) (history : List Request) :
    (∀ (rounds' depth' : Nat) (source : String) (result : Value) (next : Session),
      eval (.ofDepth hosts rounds' depth') source
          (after hosts history (start hosts rounds depth prelude registrations)) = .ok result next →
        result.Legible ∧ next.store.Legible ∧ (result.IsDatum → result.Rereads hosts)) ∧
    (∀ tree : Value, tree.IsSyntax → ∀ (limit : Nat) (s : Store), tree.depth ≤ limit →
      ∃ data t, SpecialForm.quoted limit tree s = .ok data t ∧
        ∀ limit', data.write limit' = tree.source limit') ∧
    ∀ value : Value, value.IsRuntime → value.Short → ∀ limit, value.height ≤ limit →
      ∃ text, value.text limit = .ok text ∧ Complete (tokenize text) := by
  refine ⟨?_, ?_, ?_⟩
  · intro rounds' depth' source result next heval
    have hlegible : (after hosts history
        (start hosts rounds depth prelude registrations)).store.Legible :=
      legible_after history (legible_start rounds depth prelude registrations)
    obtain ⟨hnames, hstore⟩ := legible_eval hlegible heval
    exact ⟨hnames, hstore, fun hdatum => hdatum.rereads hnames⟩
  · intro tree htree limit s hlimit
    exact SpecialForm.exists_quoted_write_eq_source htree hlimit s
  · intro value hvalue hshort limit hlimit
    exact hvalue.exists_text hshort hlimit

/-- A list of a name that is a parenthesis and of a string with one in it, in a new session, and a
pair of a truth value and such a name. -/
theorem Session.results_read_back_parentheses :
    let session := after usualHosts [] (start usualHosts 5 9 .none [])
    let tree := form [identifier "(", string "a (b"]
    usualHosts.Coupled ∧
    (∃ result next,
      eval (.ofDepth usualHosts 5 9) "(quote (\\( \"a (b\"))" session = .ok result next ∧
      result.IsDatum ∧ result.Rereads usualHosts) ∧
    (∃ data t, SpecialForm.quoted 8 tree session.store = .ok data t ∧
      ∀ limit, data.write limit = tree.source limit) ∧
    ∃ text, (pair 0 (bool true) (symbol ")")).text 2 = .ok text ∧ Complete (tokenize text) := by
  intro session tree
  have htree : tree.IsSyntax :=
    .form (List.forall_mem_cons.2 ⟨.identifier "(", List.forall_mem_singleton.2 (.string "a (b")⟩)
  have hdepth : tree.depth ≤ 8 := by decide
  have hread : readAll (Machine.ofDepth usualHosts 5 9).depth (tokenize "(quote (\\( \"a (b\"))") =
      ([quotationOf tree], none) := rfl
  obtain ⟨result, store, hrun, hquotes⟩ := exists_quoted htree hdepth session.store
  have heval : eval (.ofDepth usualHosts 5 9) "(quote (\\( \"a (b\"))" session =
      .ok result { session with store := store } := by
    rw [eval_eq, Machine.evalText_of_one hread, Machine.eval_quotationOf, hrun]
  have hdatum : result.IsDatum := by
    replace hquotes : Quotes Eq (form [identifier "(", string "a (b"]) result := hquotes
    cases hquotes with
    | cons cell hfirst hrest =>
      cases hfirst
      cases hrest with
      | cons cell' hsecond hend =>
        cases hsecond
        cases hend
        exact .pair cell (.symbol "(") (.pair cell' (.string "a (b") .nil rfl) rfl
  have hname : isBlankText ")".toList = false := by decide
  obtain ⟨hresults, hprinters, htexts⟩ :=
    results_read_back usualHosts 5 9 .none [] []
  obtain ⟨-, -, hback⟩ := hresults 5 9 _ _ _ heval
  refine ⟨inferInstance, ⟨result, _, heval, hdatum, hback hdatum⟩,
    hprinters tree htree 8 session.store hdepth, ?_⟩
  refine htexts _ (.pair 0 (.bool true) (.symbol hname)) ?_ 2 (by decide)
  simp [Short, integers]

/-- An integer of more digits than the host writes is a value of evaluation, and it has no text. -/
theorem Value.text_long_integer :
    (int ((2 ^ 14285 : Nat) : Int)).IsRuntime ∧
      ∀ limit, ¬ ∃ text, (int ((2 ^ 14285 : Nat) : Int)).text limit = .ok text := by
  refine ⟨.int _, fun limit htext => ?_⟩
  have hshort := (exists_text_iff.1 htext).2 _ (List.mem_singleton.2 rfl)
  rw [Int.natAbs_natCast] at hshort
  have hlong : ¬ 2 ^ 14285 < Nat.pow 10 longestInteger := by decide +kernel
  exact hlong hshort

end TinyLisp
