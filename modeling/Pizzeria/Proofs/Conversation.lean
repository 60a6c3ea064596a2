import Pizzeria.Shell.Basic
import Pizzeria.Proofs.Concatenation
import Pizzeria.Proofs.Transition

/-!
# Talking and running

At the prompt the lines of the input are answered entry by entry, and an entry ends where
a line happens to end in a semicolon.  If no entry fails, it makes no difference where
they were cut: the session is the one that all lines, run as one text, lead to.

Four things come together in this.  The entries are the lines, cut up and nothing else; a
text that is read behind another one adds its statements; a blank entry, which is not run
at all, would have had none; and statements change the session one after the other.

## Main Definitions

* `Input.entries` — what lines are cut into.
* `Shell.behind` — the shell behind entries that are answered one after the other.
* `Shell.Completes` — each of the entries is finished where it is its turn.

## Main Results

* `Input.flatten_entries` — the entries put together are the lines.
* `Program.ofSource_flatten` — lines put together mean the programs put together.
* `Shell.shell_converse` — talking is answering the entries.
-/

namespace Pizzeria

/-! ### Entries -/

namespace Input

/-- The entries of lines: the first one, then those of the lines behind it. -/
def entries (lines : List Text) : List Text :=
  match h : firstEntry lines with
  | none => []
  | some (source, rest) =>
      have := length_firstEntry_lt h
      source :: entries rest
termination_by lines.length

theorem entries_of_none {lines : List Text} (nothing : firstEntry lines = none) :
    entries lines = [] := by
  rw [entries]
  split
  · rfl
  · rename_i found
    rw [nothing] at found
    cases found

theorem entries_of_some {lines rest : List Text} {source : Text}
    (first : firstEntry lines = some (source, rest)) :
    entries lines = source :: entries rest := by
  rw [entries]
  split
  · rename_i found
    rw [first] at found
    cases found
  · rename_i found
    rw [first] at found
    cases found
    rfl

theorem unlines_append (a b : List Text) : unlines (a ++ b) = unlines a ++ unlines b :=
  List.flatMap_append

/-- A closed chunk is the first few lines, at least one, and the others are left. -/
theorem closedChunk?_eq_append {lines entry rest : List Text}
    (chunk : closedChunk? lines = some (entry, rest)) : lines = entry ++ rest ∧ entry ≠ [] := by
  induction lines generalizing entry with
  | nil => cases chunk
  | cons line lines ih =>
      rw [closedChunk?] at chunk
      split at chunk
      · cases chunk
        exact ⟨rfl, List.cons_ne_nil _ _⟩
      · obtain ⟨⟨others, behind⟩, found, same⟩ := Option.map_eq_some_iff.mp chunk
        cases same
        exact ⟨congrArg (line :: ·) (ih found).1, List.cons_ne_nil _ _⟩

/-- The first entry is the first closed chunk, or without one all the lines there are.  The second
can only happen at the end of the input. -/
theorem firstEntry_cases {lines rest : List Text} {source : Text}
    (first : firstEntry lines = some (source, rest)) :
    ∃ entry, source = unlines entry ∧
      (closedChunk? lines = some (entry, rest) ∨
        closedChunk? lines = none ∧ lines ≠ [] ∧ entry = lines ∧ rest = []) := by
  cases lines with
  | nil => cases first
  | cons line lines =>
      rw [firstEntry] at first
      split at first
      · rename_i entry behind chunk
        cases first
        exact ⟨entry, rfl, Or.inl chunk⟩
      · rename_i unclosed
        cases first
        exact ⟨line :: lines, rfl, Or.inr ⟨unclosed, List.cons_ne_nil _ _, rfl, rfl⟩⟩

/-- The first entry is the first few lines, of which there is at least one.  So answering entries
comes to an end. -/
theorem exists_of_firstEntry {lines rest : List Text} {source : Text}
    (first : firstEntry lines = some (source, rest)) :
    ∃ entry, entry ≠ [] ∧ source = unlines entry ∧ lines = entry ++ rest := by
  obtain ⟨entry, text, chunk | ⟨-, nonempty, rfl, rfl⟩⟩ := firstEntry_cases first
  · obtain ⟨split, nonempty⟩ := closedChunk?_eq_append chunk
    exact ⟨entry, nonempty, text, split⟩
  · exact ⟨entry, nonempty, text, (List.append_nil _).symm⟩

theorem eq_nil_of_firstEntry {lines : List Text} (nothing : firstEntry lines = none) :
    lines = [] := by
  cases lines with
  | nil => rfl
  | cons line lines =>
      rw [firstEntry] at nothing
      split at nothing <;> cases nothing

/-- Nothing is lost or moved where lines are cut into entries.  One text of all the lines is the
entries one after the other. -/
theorem flatten_entries (lines : List Text) : (entries lines).flatten = unlines lines := by
  induction lines using entries.induct with
  | case1 lines nothing =>
      rw [entries_of_none nothing, eq_nil_of_firstEntry nothing]
      rfl
  | case2 lines source rest first shorter ih =>
      obtain ⟨entry, -, rfl, rfl⟩ := exists_of_firstEntry first
      rw [entries_of_some first, List.flatten_cons, ih, unlines_append]

/-- Lines as a text end with a newline.  An entry is therefore a text on lines of its own, which
may be put in front of others. -/
theorem exists_unlines_eq_append {lines : List Text} (nonempty : lines ≠ []) :
    ∃ text, unlines lines = text ++ ['\n'] := by
  refine ⟨unlines lines.dropLast ++ lines.getLast nonempty, ?_⟩
  calc unlines lines
      = unlines (lines.dropLast ++ [lines.getLast nonempty]) := by
        rw [List.dropLast_append_getLast nonempty]
    _ = unlines lines.dropLast ++ lines.getLast nonempty ++ ['\n'] := by
        rw [unlines_append, List.append_assoc]
        exact congrArg _ (List.flatMap_singleton _ _)

theorem exists_of_mem_entries {lines : List Text} {source : Text} (mem : source ∈ entries lines) :
    ∃ text, source = text ++ ['\n'] := by
  induction lines using entries.induct with
  | case1 lines nothing =>
      rw [entries_of_none nothing] at mem
      exact absurd mem List.not_mem_nil
  | case2 lines first rest found shorter ih =>
      rw [entries_of_some found] at mem
      rcases List.mem_cons.mp mem with rfl | mem
      · obtain ⟨entry, nonempty, rfl, -⟩ := exists_of_firstEntry found
        exact exists_unlines_eq_append nonempty
      · exact ih mem

end Input

/-! ### Blank entries -/

theorem isWhiteSpace_eq_false_of_isLetter {c : Char} (letter : isLetter c = true) :
    isWhiteSpace c = false := by
  have bounds := toNat_of_isLetter letter
  simp only [isWhiteSpace, Bool.or_eq_false_iff, Bool.and_eq_false_iff, decide_eq_false_iff_not,
    beq_eq_false_iff_ne]
  omega

/-- The text of a token is visible.  Blank entries are told by a wider notion of white space than
that of the language, and no token falls under it. -/
theorem Lexeme.Neat.not_isBlank {kind : Token.Kind} {w : Text} (neat : Neat kind w) :
    Input.isBlank w = false := by
  cases neat with
  | word nonempty letters =>
      obtain ⟨c, w, rfl⟩ := List.exists_cons_of_ne_nil nonempty
      have visible := isWhiteSpace_eq_false_of_isLetter (letters c List.mem_cons_self)
      exact Bool.and_eq_false_iff.mpr (Or.inl visible)
  | literal opens _ =>
      refine Bool.and_eq_false_iff.mpr (Or.inl ?_)
      rcases bracket?_cases opens with ⟨rfl, -⟩ | ⟨rfl, -⟩ | ⟨rfl, -⟩ | ⟨rfl, -⟩ <;> decide
  | delimiter => decide

/-- Blank text that is accepted has no statements.  So nothing is lost by not running a blank
entry. -/
theorem Program.eq_nil_of_isBlank {g : Grammar} {source : Text} {program : Program}
    (blank : Input.isBlank source = true) (read : ofSource g source = .ok program) :
    program = [] := by
  rw [ofSource_eq] at read
  obtain ⟨ts, tokens, meaning⟩ := Except.bind_eq_ok_iff.mp read
  obtain ⟨xs, laid, decoded⟩ := Token.laidOut_of_ofSourceFrom tokens
  have closed : Input.isBlank (closeLine source) = true := by
    unfold closeLine
    split
    · exact blank
    · rw [Input.isBlank, List.all_append]
      exact Bool.and_eq_true_iff.mpr ⟨blank, rfl⟩
  generalize closeLine source = text at laid closed
  cases laid with
  | done _ =>
      cases decoded
      cases meaning
      rfl
  | token _ _ neat _ _ =>
      rw [Input.isBlank, List.all_append, List.all_append] at closed
      have visible := neat.not_isBlank
      rw [Input.isBlank] at visible
      rw [visible, Bool.false_and, Bool.and_false] at closed
      cases closed

/-! ### Texts one after the other -/

namespace Program

theorem change_append {p q : Program} {session next : Option Session}
    (first : p.change session = .ok next) : (p ++ q).change session = q.change next := by
  show List.foldlM _ session (p ++ q) = _
  rw [List.foldlM_append]
  exact congrArg (· >>= _) first

/-- Lines that are programs, put together, mean these programs put together.  It is used for the
entries, each of which ends with a newline. -/
theorem ofSource_flatten (v : Grammar.Version) {sources : List Text} {programs : List Program}
    (lines : ∀ source ∈ sources, ∃ text, source = text ++ ['\n'])
    (read : List.Forall₂ (fun source program => ofSource v.grammar source = .ok program)
      sources programs) :
    ofSource v.grammar sources.flatten = .ok programs.flatten := by
  rw [Grammar.Version.grammar_eq] at read ⊢
  induction read with
  | nil => rfl
  | @cons source program sources programs first _ ih =>
      obtain ⟨text, rfl⟩ := lines source List.mem_cons_self
      have others := ih (fun other mem => lines other (List.mem_cons_of_mem _ mem))
      rw [ofSource_eq, closeLine, if_pos List.getLast?_concat] at first
      rw [List.flatten_cons, List.flatten_cons, ofSource_lines_append first, others]
      rfl

end Program

/-- A run that is finished has read a program and gone to its end.  The state is the one that the
program has led to, since only a halted run adds a line of its own. -/
theorem State.exists_of_run_finished {g : Grammar} {source : Text} {s s' : State}
    (finished : s.run g source = .ok (.finished, s')) :
    ∃ program, Program.ofSource g source = .ok program ∧ program.run s = (.finished, s') := by
  obtain ⟨program, read, rest⟩ := Except.bind_eq_ok_iff.mp finished
  refine ⟨program, read, ?_⟩
  rcases outcome : program.run s with ⟨status, s₁⟩
  rw [outcome] at rest
  cases status with
  | finished =>
      cases rest
      rfl
  | halted => cases rest

/-! ### The prompt -/

namespace Shell

/-- The shell behind entries that are answered one after the other, until the user asks
to leave. -/
def behind (sh : Shell) : List Text → Shell
  | [] => sh
  | source :: others => if sh.state.running then behind (sh.answer source).shell others else sh

/-- Every entry is accepted, and is run to its end from where the answers to those before
it have led. -/
def Completes (sh : Shell) : List Text → Prop
  | [] => True
  | source :: others =>
      (sh.state.run sh.grammar source).map Prod.fst = .ok .finished ∧
        Completes (sh.answer source).shell others

instance decidableCompletes (sh : Shell) : (sources : List Text) → Decidable (sh.Completes sources)
  | [] => .isTrue trivial
  | source :: others =>
      have := decidableCompletes (sh.answer source).shell others
      inferInstanceAs (Decidable (_ ∧ _))

/-- Where all lines can be read, talking is answering the entries.  What is written at the prompt
has no influence on the shell. -/
theorem shell_converse (sh : Shell) (lines : List Text) :
    (sh.converse false lines).shell = sh.behind (Input.entries lines) := by
  induction lines using Input.entries.induct generalizing sh with
  | case1 lines nothing =>
      rw [Input.entries_of_none nothing, behind, converse]
      split
      · rw [Bool.false_and, if_neg Bool.false_ne_true]
        split
        · rfl
        · rename_i found
          rw [nothing] at found
          cases found
      · rfl
  | case2 lines source rest first shorter ih =>
      rw [Input.entries_of_some first, behind, converse]
      split
      · rw [Bool.false_and, if_neg Bool.false_ne_true]
        split
        · rename_i found
          rw [first] at found
          cases found
        · rename_i found
          rw [first] at found
          cases found
          exact ih (sh.answer source).shell
      · rfl

/-- The answer to an entry that is finished is what its statements make of the session.
A blank entry is not run, and has none. -/
theorem exists_of_finished {sh : Shell} {source : Text}
    (finishes : (sh.state.run sh.grammar source).map Prod.fst = .ok .finished) :
    ∃ program, Program.ofSource sh.grammar source = .ok program ∧
      program.change sh.state.session = .ok (sh.answer source).shell.state.session ∧
      (sh.answer source).shell.state.running =
        (program.all (· != .quit) && sh.state.running) ∧
      (sh.answer source).shell.grammar = sh.grammar := by
  obtain ⟨⟨_, s'⟩, finished, rfl⟩ := Except.map_eq_ok_iff.mp finishes
  obtain ⟨program, read, ran⟩ := State.exists_of_run_finished finished
  refine ⟨program, read, ?_⟩
  by_cases blank : Input.isBlank source = true
  · obtain rfl := Program.eq_nil_of_isBlank blank read
    rw [answer, if_pos blank]
    exact ⟨rfl, rfl, rfl⟩
  · obtain ⟨changes, running⟩ := Program.change_of_finished ran
    rw [answer, if_neg blank, submit, finished]
    exact ⟨changes, running, rfl⟩

/-- Entries that are all finished, with none before the last in which the user leaves, have
made what their statements make one after the other. -/
theorem exists_of_completes {v : Grammar.Version} {sh : Shell} {sources : List Text}
    (grammar : sh.grammar = v.grammar) (running : sh.state.running = true)
    (completes : sh.Completes sources)
    (stays : ∀ source ∈ sources.dropLast, ∀ program,
      Program.ofSource v.grammar source = .ok program → .quit ∉ program) :
    ∃ programs,
      List.Forall₂ (fun source program => Program.ofSource v.grammar source = .ok program)
        sources programs ∧
      Program.change programs.flatten sh.state.session =
        .ok (sh.behind sources).state.session ∧
      (sh.behind sources).state.running = programs.flatten.all (· != .quit) := by
  induction sources generalizing sh with
  | nil => exact ⟨[], .nil, rfl, running⟩
  | cons source others ih =>
      obtain ⟨finishes, completes⟩ := completes
      obtain ⟨program, read, changes, goes, same⟩ := exists_of_finished finishes
      rw [grammar] at read same
      rw [running, Bool.and_true] at goes
      rw [behind, if_pos running]
      -- Behind the last entry the user may be gone, so the induction does not reach it.
      cases others with
      | nil =>
          refine ⟨[program], .cons read .nil, ?_, ?_⟩
          · rw [List.flatten_singleton]
            exact changes
          · rw [List.flatten_singleton]
            exact goes
      | cons next others =>
          rw [List.dropLast_cons_cons] at stays
          have all : program.all (· != .quit) = true := by
            rw [List.all_eq_true]
            intro statement mem
            refine bne_iff_ne.mpr ?_
            rintro rfl
            exact stays source List.mem_cons_self program read mem
          rw [all] at goes
          obtain ⟨programs, reads, change, rest⟩ := ih same goes completes
            (fun other mem => stays other (List.mem_cons_of_mem source mem))
          refine ⟨program :: programs, .cons read reads, ?_, ?_⟩
          · rw [List.flatten_cons, Program.change_append changes]
            exact change
          · rw [List.flatten_cons, List.all_append, all, Bool.true_and]
            exact rest

/-- **Talking and running agree.**  If every entry that the lines are cut into is accepted and
finished when its turn comes, and the user leaves in none but the last, then all lines run
as one text are finished too, and they leave the same session and leave the user inside or
outside alike. -/
theorem converse_eq_run (v : Grammar.Version) (state : State) (colored : Bool)
    (lines : List Text) (running : state.running = true)
    (completes : Completes ⟨state, v.grammar, colored⟩ (Input.entries lines))
    (stays : ∀ source ∈ (Input.entries lines).dropLast, ∀ program,
      Program.ofSource v.grammar source = .ok program → .quit ∉ program) :
    ∃ s', state.run v.grammar (Input.unlines lines) = .ok (.finished, s') ∧
      (converse ⟨state, v.grammar, colored⟩ false lines).shell.state.session = s'.session ∧
      (converse ⟨state, v.grammar, colored⟩ false lines).shell.state.running = s'.running := by
  have same : Shell.grammar ⟨state, v.grammar, colored⟩ = v.grammar := rfl
  obtain ⟨programs, reads, change, talks⟩ := exists_of_completes same running completes stays
  have read : Program.ofSource v.grammar (Input.unlines lines) = .ok programs.flatten := by
    rw [← Input.flatten_entries]
    exact Program.ofSource_flatten v (fun _ mem => Input.exists_of_mem_entries mem) reads
  obtain ⟨s', finished, leaves⟩ :=
    Program.runFrom_of_change (s := Program.opening state) change
  have runs : s'.running = (programs.flatten.all (· != .quit) && state.running) :=
    (Program.change_of_finished finished).2
  refine ⟨s', State.run_of_finished read finished, ?_, ?_⟩
  · rw [shell_converse]
    exact leaves.symm
  · rw [shell_converse, talks, runs, running, Bool.and_true]

/-- A statement over two lines, an entry that is one comment, a blank entry, two statements
in one entry, and a last entry that the end of the input closes. -/
def spreadLines : List Text :=
  [("START SESSION" : Text), ("AS \"a\"; " : Text), ("# none;" : Text), (" " : Text),
    ("ADD PIZZA [{HAM}]; VOTE FOR" : Text), ("PIZZA (1);" : Text), ("QUIT; # bye" : Text)]

/-- What they are cut into. -/
def spreadEntries : List Text :=
  [("START SESSION\nAS \"a\"; \n" : Text), ("# none;\n" : Text), (" \n" : Text),
    ("ADD PIZZA [{HAM}]; VOTE FOR\nPIZZA (1);\n" : Text), ("QUIT; # bye\n" : Text)]

theorem entries_spreadLines : Input.entries spreadLines = spreadEntries := by
  rw [spreadLines, Input.entries_of_some rfl, Input.entries_of_some rfl, Input.entries_of_some rfl,
    Input.entries_of_some rfl, Input.entries_of_some rfl, Input.entries_of_none rfl]
  rfl

theorem converse_eq_run_spread :
    Input.entries spreadLines = spreadEntries ∧
      Completes ⟨.fresh {}, Grammar.Version.spl2.grammar, true⟩ spreadEntries ∧
      ∃ s', (State.fresh {}).run Grammar.Version.spl2.grammar (Input.unlines spreadLines) =
          .ok (.finished, s') ∧
        s'.session = some
          ⟨"a", [⟨{ Pizza.standard with toppings := [⟨.whole, .ham⟩] }, 1, ""⟩], 30⟩ ∧
        s'.running = false ∧
        (converse ⟨.fresh {}, Grammar.Version.spl2.grammar, true⟩ false
          spreadLines).shell.state.session = s'.session ∧
        (converse ⟨.fresh {}, Grammar.Version.spl2.grammar, true⟩ false
          spreadLines).shell.state.running = s'.running := by
  have completes : Completes ⟨.fresh {}, Grammar.Version.spl2.grammar, true⟩ spreadEntries := by
    decide +kernel
  have programs : ∀ source ∈ spreadEntries.dropLast,
      (Program.ofSource Grammar.Version.spl2.grammar source).map (List.contains · .quit) =
        .ok false := by
    decide +kernel
  have stays : ∀ source ∈ (Input.entries spreadLines).dropLast, ∀ program,
      Program.ofSource Grammar.Version.spl2.grammar source = .ok program → .quit ∉ program := by
    rw [entries_spreadLines]
    intro source mem program read leaves
    have absent := programs source mem
    rw [read] at absent
    have absent : List.contains program .quit = false := Except.ok.inj absent
    rw [List.contains_iff_mem.mpr leaves] at absent
    cases absent
  obtain ⟨s', ran, session, running⟩ := converse_eq_run .spl2 (.fresh {}) true spreadLines rfl
    (entries_spreadLines ▸ completes) stays
  have leaves : ((State.fresh {}).run Grammar.Version.spl2.grammar
      (Input.unlines spreadLines)).map (fun r => (r.2.session, r.2.running)) =
      .ok (some ⟨"a", [⟨{ Pizza.standard with toppings := [⟨.whole, .ham⟩] }, 1, ""⟩], 30⟩,
        false) := by
    decide +kernel
  rw [ran] at leaves
  obtain ⟨opened, left⟩ := Prod.mk.inj (Except.ok.inj leaves)
  exact ⟨entries_spreadLines, completes, s', ran, opened, left, session, running⟩

end Shell

end Pizzeria
