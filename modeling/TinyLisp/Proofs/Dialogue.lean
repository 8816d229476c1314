import TinyLisp.Proofs.Answers
import TinyLisp.Proofs.Lines

/-!
# What the loop takes in

The loop asks for a line, gathers lines into blocks, and evaluates each block once.  No
line that it reads is lost but blank lines before a block and the line that ends the
loop.

There are five groups.

* `Incomplete` and `Gathered`: rows of lines that are not yet a block, and blocks.
* `Transcript`: an input with the events that belong to it.  `receive_cases` is the step
  and `transcript_eventsFrom` the induction over the lines.
* `submitted` and `prompted`: the blocks of some events, and the prompts.
  `flatten_submitted` says which lines are in the blocks, and `length_prompted` how many
  are read.
* `afterSubmits`: the session that some blocks leave.  `forM_perform` is the induction
  over the events.
* `keeps_input`: all of this for a whole input.
-/

namespace TinyLisp.Repl

open Session (left)

/-! ## Blocks -/

/-- Lines after which the loop goes on gathering: they leave a form open, and none is blank. -/
structure Incomplete (block : List Line) : Prop where
  isOpen : 0 < openForms (prepare block.flatten)
  full : ∀ line ∈ block, isBlankText line = false

/-- A row of lines that are gathered into one block: the first line is neither blank nor one that
ends the loop, and the lines in front of each other line are incomplete. -/
structure Gathered (block : List Line) : Prop where
  begins : ∃ first more, block = first :: more ∧ isBlankText first = false ∧ trim first ∉ exitLines
  goesOn : ∀ front, front <+: block → front ≠ [] → front ≠ block → Incomplete front

/-- A block that ends with its last line: the line is blank, or no form is open. -/
def EndsBlock (block : List Line) : Prop :=
  (∃ last, block.getLast? = some last ∧ isBlankText last = true) ∨
    openForms (prepare block.flatten) ≤ 0

/-- One prompt for each line of a block. -/
def prompts : List Line → List Event
  | [] => []
  | _ :: more => .prompt false :: more.map fun _ => .prompt true

theorem prompts_concat (block : List Line) (line : Line) :
    prompts (block ++ [line]) = prompts block ++ [.prompt (!block.isEmpty)] := by
  cases block with
  | nil => rfl
  | cons first more => simp [prompts]

/-! ## Transcripts -/

/-- An input, and what the loop does with it when no block has begun. -/
inductive Transcript : List Line → List Event → Prop where
  /-- The input is at its end. -/
  | finished : Transcript [] [.prompt false, .endOfInput]
  /-- A line ends the loop, and what stands behind it is not read. -/
  | exit (line : Line) (rest : List Line) (command : trim line ∈ exitLines) :
      Transcript (line :: rest) [.prompt false]
  /-- A blank line is dropped. -/
  | blank (line : Line) {rest : List Line} {events : List Event}
      (isBlank : isBlankText line = true) (behind : Transcript rest events) :
      Transcript (line :: rest) (.prompt false :: events)
  /-- A block is evaluated. -/
  | block (block : List Line) {rest : List Line} {events : List Event} (gathered : Gathered block)
      (ends : EndsBlock block) (behind : Transcript rest events) :
      Transcript (block ++ rest) (prompts block ++ .submit block :: events)
  /-- The input ends within a block, which is evaluated all the same. -/
  | pending (block : List Line) (gathered : Gathered block) (incomplete : Incomplete block) :
      Transcript block (prompts block ++ [.prompt true, .submit block, .endOfInput])

/-- What becomes of a line. -/
theorem receive_cases (block : List Line) (line : Line) :
    (block = [] ∧ trim line ∈ exitLines ∧ receive block line = .exit) ∨
    (block = [] ∧ isBlankText line = true ∧ receive block line = .incomplete []) ∨
    (block = [] → isBlankText line = false ∧ trim line ∉ exitLines) ∧
      (EndsBlock (block ++ [line]) ∧ receive block line = .complete (block ++ [line]) ∨
        isBlankText line = false ∧ 0 < openForms (prepare (block ++ [line]).flatten) ∧
          receive block line = .incomplete (block ++ [line])) := by
  by_cases hexit : block = [] ∧ trim line ∈ exitLines
  · exact .inl ⟨hexit.1, hexit.2, by simp [receive, hexit]⟩
  by_cases hblank : block = [] ∧ isBlankText line = true
  · obtain ⟨rfl, hblank⟩ := hblank
    exact .inr (.inl ⟨rfl, hblank, by simpa [receive, hblank] using hexit⟩)
  have hreceive : receive block line =
      if isComplete (block ++ [line]) line then .complete (block ++ [line])
      else .incomplete (block ++ [line]) := by
    rw [receive, if_neg (by simpa using hexit), if_neg (by simpa using hblank)]
  refine .inr (.inr ⟨fun hnil => ⟨?_, fun hmem => hexit ⟨hnil, hmem⟩⟩, ?_⟩)
  · exact Bool.eq_false_iff.2 fun htrue => hblank ⟨hnil, htrue⟩
  rw [hreceive]
  by_cases hcomplete : isComplete (block ++ [line]) line = true
  · rw [if_pos hcomplete]
    rw [isComplete, Bool.or_eq_true, decide_eq_true_iff] at hcomplete
    exact .inl ⟨hcomplete.imp_left fun hlast => ⟨line, by simp, hlast⟩, rfl⟩
  · rw [if_neg hcomplete]
    rw [isComplete, Bool.or_eq_true, decide_eq_true_iff, not_or, Bool.not_eq_true,
      Int.not_le] at hcomplete
    exact .inr ⟨hcomplete.1, hcomplete.2, rfl⟩

/-- Lines that the loop is gathering: none at all, or the incomplete beginning of a block. -/
def Underway (block : List Line) : Prop :=
  block = [] ∨ Gathered block ∧ Incomplete block

/-- One more line for the block. -/
theorem Underway.gathered {block : List Line} (h : Underway block) {line : Line}
    (hbegins : block = [] → isBlankText line = false ∧ trim line ∉ exitLines) :
    Gathered (block ++ [line]) := by
  rcases h with rfl | ⟨hgathered, hincomplete⟩
  · refine ⟨⟨line, [], rfl, hbegins rfl⟩, fun front hfront hne hproper => ?_⟩
    rcases List.prefix_concat_iff.1 hfront with rfl | hfront
    · exact absurd rfl hproper
    · exact absurd (List.prefix_nil.1 hfront) hne
  · obtain ⟨⟨first, more, rfl, hfirst⟩, hgoesOn⟩ := hgathered
    refine ⟨⟨first, more ++ [line], rfl, hfirst⟩, fun front hfront hne hproper => ?_⟩
    rcases List.prefix_concat_iff.1 hfront with rfl | hfront
    · exact absurd rfl hproper
    · by_cases hall : front = first :: more
      · rwa [hall]
      · exact hgoesOn front hfront hne hall

theorem Underway.full {block : List Line} (h : Underway block) :
    ∀ line ∈ block, isBlankText line = false := by
  rcases h with rfl | ⟨-, hincomplete⟩
  · exact nofun
  · exact hincomplete.full

/-- From lines that are being gathered, the events go on in a transcript. -/
theorem transcript_eventsFrom {block : List Line} (h : Underway block) (lines : List Line) :
    Transcript (block ++ lines) (prompts block ++ eventsFrom block lines) := by
  induction lines generalizing block with
  | nil =>
    rcases h with rfl | ⟨hgathered, hincomplete⟩
    · exact .finished
    · obtain ⟨first, more, rfl, -⟩ := hgathered.begins
      rw [List.append_nil]
      exact .pending _ hgathered hincomplete
  | cons line rest ih =>
    -- the line ends the loop, is dropped, completes the block or leaves it incomplete
    rcases receive_cases block line with ⟨rfl, hexit, hreceive⟩ | ⟨rfl, hblank, hreceive⟩ |
      ⟨hbegins, ⟨hends, hreceive⟩ | ⟨hfull, hopen, hreceive⟩⟩
    · rw [eventsFrom, hreceive]
      exact .exit line rest hexit
    · rw [eventsFrom, hreceive]
      exact .blank line hblank (ih (.inl rfl))
    · rw [eventsFrom, hreceive, List.append_cons block, List.append_cons (prompts block),
        ← prompts_concat]
      exact .block _ (h.gathered hbegins) hends (ih (.inl rfl))
    · rw [eventsFrom, hreceive, List.append_cons block, List.append_cons (prompts block),
        ← prompts_concat]
      have hincomplete : Incomplete (block ++ [line]) := by
        refine ⟨hopen, fun other hother => ?_⟩
        rcases List.mem_append.1 hother with hmem | hmem
        · exact h.full other hmem
        · rwa [List.mem_singleton.1 hmem]
      exact ih (.inr ⟨h.gathered hbegins, hincomplete⟩)

theorem transcript_events (lines : List Line) : Transcript lines (events lines) :=
  transcript_eventsFrom (.inl rfl) lines

/-! ## Lines that are read -/

/-- The blocks that are evaluated, in order. -/
def submitted (events : List Event) : List (List Line) :=
  events.filterMap fun
    | .submit block => some block
    | _ => none

/-- The prompts in order: whether each one is for a block that has begun. -/
def prompted (events : List Event) : List Bool :=
  events.filterMap fun
    | .prompt continued => some continued
    | _ => none

@[simp] theorem submitted_append (front rest : List Event) :
    submitted (front ++ rest) = submitted front ++ submitted rest :=
  List.filterMap_append

@[simp] theorem prompted_append (front rest : List Event) :
    prompted (front ++ rest) = prompted front ++ prompted rest :=
  List.filterMap_append

/-- A line that ends the loop, because no block has begun. -/
def endsLoop (read : Bool × Line) : Bool :=
  !read.1 && exitLines.contains (trim read.2)

/-- A line that is dropped, because it is blank and no block has begun. -/
def isDropped (read : Bool × Line) : Bool :=
  !read.1 && isBlankText read.2

/-- The lines of a block with their prompts. -/
def readsOf : List Line → List (Bool × Line)
  | [] => []
  | first :: more => (false, first) :: more.map fun line => (true, line)

theorem submitted_prompts (block : List Line) : submitted (prompts block) = [] := by
  cases block with
  | nil => rfl
  | cons first more => simp [submitted, prompts]

/-- The prompts of a block are for its lines. -/
theorem zip_prompted (block lines : List Line) (events : List Event) :
    (prompted (prompts block ++ events)).zip (block ++ lines) =
      readsOf block ++ (prompted events).zip lines := by
  cases block with
  | nil => rfl
  | cons first more =>
    have hprompts : prompted (prompts (first :: more)) = false :: more.map fun _ => true := by
      simp [prompted, prompts]
    have hzip : (more.map fun line => (true, line)) = (more.map fun _ => true).zip more :=
      List.map_prod_right_eq_zip
    rw [prompted_append, hprompts, List.zip_append (by simp), readsOf, hzip]
    rfl

theorem map_readsOf (block : List Line) : (readsOf block).map (·.2) = block := by
  cases block with
  | nil => rfl
  | cons first more => simp [readsOf, Function.comp_def]

/-- No line of a block ends the loop or is dropped. -/
theorem Gathered.reads {block : List Line} (h : Gathered block) :
    ∀ read ∈ readsOf block, endsLoop read = false ∧ isDropped read = false := by
  obtain ⟨first, more, rfl, hfull, hexit⟩ := h.begins
  intro read hread
  rcases List.mem_cons.1 hread with rfl | hread
  · simpa [endsLoop, isDropped, hfull] using hexit
  · obtain ⟨line, -, rfl⟩ := List.mem_map.1 hread
    exact ⟨rfl, rfl⟩

/-- The lines that are neither dropped nor stand at or behind one that ends the loop. -/
def keptLines (reads : List (Bool × Line)) : List Line :=
  ((reads.takeWhile fun read => !endsLoop read).filter fun read => !isDropped read).map (·.2)

theorem Gathered.keptLines_append {block : List Line} (h : Gathered block)
    (reads : List (Bool × Line)) :
    keptLines (readsOf block ++ reads) = block ++ keptLines reads := by
  have hreads := h.reads
  have hkept : (readsOf block).filter (fun read => !isDropped read) = readsOf block :=
    List.filter_eq_self.2 fun read hread => by rw [(hreads read hread).2]; rfl
  unfold keptLines
  rw [List.takeWhile_append_of_pos fun read hread => by rw [(hreads read hread).1]; rfl,
    List.filter_append, List.map_append, hkept, map_readsOf]

/-- The blocks of a transcript, one behind the other, are the lines that are kept. -/
theorem flatten_submitted {lines : List Line} {events : List Event} (h : Transcript lines events) :
    (submitted events).flatten = keptLines ((prompted events).zip lines) := by
  induction h with
  | finished => rfl
  | exit line rest command => simp [submitted, prompted, keptLines, endsLoop, command]
  | @blank line rest events isBlank behind ih =>
    have hexit : trim line ∉ exitLines := by
      rw [isBlankText_iff.1 isBlank]
      decide
    have hreads : (prompted (.prompt false :: events)).zip (line :: rest) =
        (false, line) :: (prompted events).zip rest := rfl
    have hsubmitted : submitted (.prompt false :: events) = submitted events := rfl
    rw [hsubmitted, hreads, ih]
    simp [keptLines, endsLoop, isDropped, hexit, isBlank]
  | @block block rest events gathered ends behind ih =>
    have hsubmitted : submitted (prompts block ++ .submit block :: events) =
        block :: submitted events := by
      rw [submitted_append, submitted_prompts]
      rfl
    rw [hsubmitted, zip_prompted, gathered.keptLines_append, List.flatten_cons, ih]
    rfl
  | pending block gathered incomplete =>
    have hsubmitted : submitted (prompts block ++ [.prompt true, .submit block, .endOfInput]) =
        [block] := by
      rw [submitted_append, submitted_prompts]
      rfl
    have hreads := zip_prompted block [] [.prompt true, .submit block, .endOfInput]
    rw [List.append_nil] at hreads
    rw [hsubmitted, hreads, gathered.keptLines_append]
    simp [keptLines]

theorem length_prompted_prompts (block : List Line) :
    (prompted (prompts block)).length = block.length := by
  cases block with
  | nil => rfl
  | cons first more => simp [prompted, prompts]

theorem endOfInput_not_mem_prompts (block : List Line) : .endOfInput ∉ prompts block := by
  cases block with
  | nil => exact nofun
  | cons first more => simp [prompts]

/-- There is one prompt for each line that is read and does not end the loop, and one more for what
ends the loop: the end of the input, or a line for this. -/
theorem length_prompted {lines : List Line} {events : List Event} (h : Transcript lines events) :
    ∃ front rest, lines = front ++ rest ∧ (prompted events).length = front.length + 1 ∧
      (rest = [] ∧ .endOfInput ∈ events ∨
        .endOfInput ∉ events ∧ ∃ line behind, rest = line :: behind ∧ trim line ∈ exitLines) := by
  induction h with
  | finished => exact ⟨[], [], rfl, rfl, .inl ⟨rfl, by simp⟩⟩
  | exit line rest command =>
    exact ⟨[], line :: rest, rfl, rfl, .inr ⟨by simp, line, rest, rfl, command⟩⟩
  | @blank line _ events isBlank behind ih =>
    obtain ⟨front, rest, rfl, hlength, hends⟩ := ih
    have hprompted : prompted (.prompt false :: events) = false :: prompted events := rfl
    refine ⟨line :: front, rest, rfl, ?_, by simpa using hends⟩
    rw [hprompted, List.length_cons, hlength, List.length_cons]
  | @block block _ events gathered ends behind ih =>
    obtain ⟨front, rest, rfl, hlength, hends⟩ := ih
    have hprompted : prompted (.submit block :: events) = prompted events := rfl
    refine ⟨block ++ front, rest, by simp, ?_, ?_⟩
    · rw [prompted_append, hprompted, List.length_append, length_prompted_prompts, hlength,
        List.length_append, Nat.add_assoc]
    · simpa [endOfInput_not_mem_prompts] using hends
  | pending block gathered incomplete =>
    refine ⟨block, [], by simp, ?_, .inl ⟨rfl, by simp⟩⟩
    rw [prompted_append, List.length_append, length_prompted_prompts]
    rfl

/-! ## Sessions -/

variable {m : Machine} {options : Options}

/-- The session that a block leaves.  What it has printed has been taken. -/
def afterSubmit (m : Machine) (options : Options) (session : Session) (block : List Line) :
    Session :=
  let after := left (evaluate m options.fresh block.flatten session)
  { after with store := after.store.takeOutput.2 }

/-- The session that blocks leave, each one evaluated in the session that the one before it has
left. -/
def afterSubmits (m : Machine) (options : Options) (blocks : List (List Line))
    (session : Session) : Session :=
  blocks.foldl (afterSubmit m options) session

/-- Each block gets an answer in the session that the blocks before it have left. -/
def EachEnds (m : Machine) (options : Options) : List (List Line) → Session → Prop
  | [], _ => True
  | block :: blocks, session =>
    EndsFrom (evaluate m options.fresh block.flatten) session ∧
      EachEnds m options blocks (afterSubmit m options session block)

/-- What is written for a block: what it has printed, if the output is shared, and its answer. -/
def said (m : Machine) (options : Options) (block : List Line) (session : Session) : String :=
  match evaluate m options.fresh block.flatten session with
  | .ok (_, shown) after =>
    (if options.sharesOutput then after.store.takeOutput.1 else "") ++
      if shown = "" then "" else shown ++ "\n"
  | .error _ after => if options.sharesOutput then after.store.takeOutput.1 else ""

/-- What is written for some events. -/
def saidAll (m : Machine) (options : Options) : List Event → Session → String
  | [], _ => ""
  | .prompt continued :: rest, session =>
    (if continued then continuationPrompt else options.prompt) ++ saidAll m options rest session
  | .submit block :: rest, session =>
    said m options block session ++ saidAll m options rest (afterSubmit m options session block)
  | .endOfInput :: rest, session => "\n" ++ saidAll m options rest session

/-- A block with an answer: its text is written, and its session is kept. -/
theorem perform_of_ends {block : List Line} {session : Session}
    (h : EndsFrom (evaluate m options.fresh block.flatten) session) (written : String) :
    perform m options (.submit block) (written, session) =
      .ok () (written ++ said m options block session, afterSubmit m options session block) := by
  obtain ⟨⟨ok, shown⟩, after, heval⟩ := h
  let printed := if options.sharesOutput then after.store.takeOutput.1 else ""
  have hinteract : interact options.sharesOutput (evaluate m options.fresh block.flatten)
      (written, session) =
        .ok (ok, shown) (written ++ printed, { after with store := after.store.takeOutput.2 }) := by
    rw [interact, heval]
    dsimp only [printed]
    split <;> simp
  have hsaid : said m options block session =
      printed ++ if shown = "" then "" else shown ++ "\n" := by rw [said, heval]
  have hafter : afterSubmit m options session block =
      { after with store := after.store.takeOutput.2 } := by rw [afterSubmit, heval]; rfl
  rw [hsaid, hafter, perform, Run.bind_of_ok hinteract]
  show (if shown ≠ "" then say (shown ++ "\n") else pure ()) _ = _
  by_cases hshown : shown = ""
  · rw [if_neg (not_not_intro hshown), if_pos hshown, String.append_empty]
    rfl
  · rw [if_pos hshown, if_neg hshown, ← String.append_assoc]
    rfl

/-- The events end well when each block gets an answer.  What is written for them is then added, and
the session is the one that the blocks leave. -/
theorem forM_perform (events : List Event) (written : String) (session : Session) :
    (EndsFrom (events.forM (perform m options)) (written, session) ↔
      EachEnds m options (submitted events) session) ∧
    (EachEnds m options (submitted events) session →
      events.forM (perform m options) (written, session) =
        .ok () (written ++ saidAll m options events session,
          afterSubmits m options (submitted events) session)) := by
  induction events generalizing written session with
  | nil =>
    refine ⟨iff_of_true ⟨_, _, rfl⟩ trivial, fun _ => ?_⟩
    rw [saidAll, String.append_empty]
    rfl
  | cons event events ih =>
    have hcons : (event :: events).forM (perform m options) =
        perform m options event >>= fun _ => events.forM (perform m options) := rfl
    rw [hcons]
    cases event with
    | prompt continued =>
      have hprompt : perform m options (.prompt continued) (written, session) = .ok ()
          (written ++ if continued then continuationPrompt else options.prompt, session) := rfl
      rw [EndsFrom, Run.bind_of_ok hprompt, saidAll, ← String.append_assoc]
      exact ih _ session
    | endOfInput =>
      have hend : perform m options .endOfInput (written, session) =
          .ok () (written ++ "\n", session) := rfl
      rw [EndsFrom, Run.bind_of_ok hend, saidAll, ← String.append_assoc]
      exact ih _ session
    | submit block =>
      have hsubmitted : submitted (.submit block :: events) = block :: submitted events := rfl
      rw [hsubmitted, EachEnds, saidAll, ← String.append_assoc]
      by_cases hends : EndsFrom (evaluate m options.fresh block.flatten) session
      · rw [EndsFrom, Run.bind_of_ok (perform_of_ends hends written)]
        obtain ⟨hiff, hbehind⟩ := ih (written ++ said m options block session)
          (afterSubmit m options session block)
        exact ⟨hiff.trans (and_iff_right hends).symm, fun h => hbehind h.2⟩
      · refine ⟨iff_of_false ?_ fun h => hends h.1, fun h => absurd h.1 hends⟩
        rw [endsFrom_bind_iff]
        rintro ⟨_, reached, hreached, -⟩
        exact hends (endsFrom_submit_iff.1 ⟨_, reached, hreached⟩)

/-! ## A whole input -/

theorem flatten_linesFrom (line text : List Char) :
    (linesFrom line text).flatten = line.reverse ++ text := by
  fun_induction linesFrom line text with
  | case1 line hempty => rw [List.isEmpty_iff.1 hempty]; rfl
  | case2 line hfull => simp
  | case3 line rest ih => simp [ih]
  | case4 line c rest hc ih => simp [ih]

/-- The loop asks once for each line that it reads, and takes the lines in as a transcript says.
The blocks, one behind the other, are the lines in front of the one that ends the loop, without the
blank lines that are read before a block.  Each block is evaluated once, in the session that the one
before it has left, and the loop ends well just when each of these evaluations does. -/
theorem keeps_input (m : Machine) (options : Options) :
    (∀ lines, Transcript lines (events lines) ∧
      (submitted (events lines)).flatten = keptLines ((prompted (events lines)).zip lines) ∧
      ∃ front rest, lines = front ++ rest ∧
        (prompted (events lines)).length = front.length + 1 ∧
        (rest = [] ∧ .endOfInput ∈ events lines ∨ .endOfInput ∉ events lines ∧
          ∃ line behind, rest = line :: behind ∧ trim line ∈ exitLines)) ∧
    (∀ lines written session,
      (EndsFrom ((events lines).forM (perform m options)) (written, session) ↔
        EachEnds m options (submitted (events lines)) session) ∧
      (EachEnds m options (submitted (events lines)) session →
        (events lines).forM (perform m options) (written, session) =
          .ok () (written ++ saidAll m options (events lines) session,
            afterSubmits m options (submitted (events lines)) session))) ∧
    ∀ input, run m options input = (events (linesOf input)).forM (perform m options) ∧
      (linesOf input).flatten = input.toList := by
  refine ⟨fun lines => ?_, fun lines => forM_perform (events lines), fun input => ⟨rfl, ?_⟩⟩
  · have htranscript := transcript_events lines
    exact ⟨htranscript, flatten_submitted htranscript, length_prompted htranscript⟩
  · rw [linesOf, flatten_linesFrom]
    rfl

/-- A line that would end the loop is part of a block when one has begun. -/
example : events ["\n".toList, "(list\n".toList, "(exit)\n".toList, ")\n".toList,
      "(exit)\n".toList, "()\n".toList] =
    [.prompt false, .prompt false, .prompt true, .prompt true,
      .submit ["(list\n".toList, "(exit)\n".toList, ")\n".toList], .prompt false] := by
  decide

end TinyLisp.Repl
