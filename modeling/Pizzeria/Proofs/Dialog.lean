import Mathlib.Data.List.Basic
import Pizzeria.Shell.Dialog

/-!
# One event at a time comes to the same

`Shell.perform` has the whole input in front of it, and looks ahead in it for the line that
closes an entry.  A dialog cannot: it is told about one line after the other and keeps the
lines of the entry that is still open.  What it writes in all is what `Shell.perform`
writes, and it stops with the same exit code.

The lines of the input are not cut in advance either.  The bytes up to the next newline are
read, and are a line, a line that cannot be read, or the end.

## Main Definitions

* `Dialog.Turn.after` — the turn that events lead to, with all that was written.
* `Dialog.scripts` — the events about scripts that the command asks for.

## Main Results

* `Dialog.after_lines_closed` — an entry is answered when the line comes that closes it.
* `Dialog.after_talk` — lines one after the other are a conversation.
* `Dialog.after_scripts` — scripts one after the other are run as in one go.
* `Dialog.exists_events` — reading the input in pieces gives its lines.
* `Dialog.start_after` — the dialog is the command.
-/

namespace Pizzeria

namespace Dialog

/-! ### Turns -/

namespace Turn

/-- The turn that events lead to, one after the other, with all that was written. -/
def after (t : Turn) (events : List Event) : Turn :=
  events.foldl (fun t event => (t.next.feed event).behind t.output) t

theorem after_cons (t : Turn) (event : Event) (events : List Event) :
    t.after (event :: events) = ((t.next.feed event).behind t.output).after events := rfl

theorem after_append (t : Turn) (events more : List Event) :
    t.after (events ++ more) = (t.after events).after more := List.foldl_append

theorem behind_nil (t : Turn) : t.behind [] = t := rfl

theorem behind_behind (t : Turn) (a b : Text) : (t.behind a).behind b = t.behind (b ++ a) := by
  rw [behind, behind, behind, List.append_assoc]

/-- What was written before has no influence on what comes.  So the output can be collected in any
grouping, and the induction hypotheses apply to the turn without it. -/
theorem behind_after (t : Turn) (text : Text) (events : List Event) :
    (t.behind text).after events = (t.after events).behind text := by
  induction events generalizing t with
  | nil => rfl
  | cons event events ih =>
      rw [after_cons, after_cons, ← ih, behind_behind]
      rfl

/-- Where nothing is waited for, nothing happens any more.  Events that come too late, such as
lines behind the one that asked to leave, are let pass. -/
theorem over_after (exitCode : Nat) (text : Text) (events : List Event) :
    after ⟨.over exitCode, text⟩ events = ⟨.over exitCode, text⟩ := by
  induction events with
  | nil => rfl
  | cons event events ih =>
      have stays : (Dialog.over exitCode).feed event = ⟨.over exitCode, []⟩ := by
        cases event <;> rfl
      rw [after_cons, stays, behind, List.append_nil, ih]

end Turn

open Turn

/-- The last turn of the command, if a part of the shell's work has come to this. -/
def closing (t : Transcript) : Turn := ⟨.over (if t.failed then 1 else 0), t.output⟩

/-! ### The prompt -/

theorem feed_line_of_not_closes {line : Text} (goesOn : ¬ Input.closes line = true) (sh : Shell)
    (earlier : List Text) :
    (Dialog.entry sh earlier).feed (.line line) = ⟨.entry sh (earlier ++ [line]), []⟩ :=
  if_neg goesOn

/-- Lines of which none closes an entry are kept behind the earlier ones, and nothing is
written. -/
theorem after_lines_unclosed {lines : List Text} (unclosed : Input.closedChunk? lines = none)
    (sh : Shell) (earlier : List Text) (text : Text) :
    after ⟨.entry sh earlier, text⟩ (lines.map .line) = ⟨.entry sh (earlier ++ lines), text⟩ := by
  induction lines generalizing earlier with
  | nil =>
      rw [List.append_nil]
      rfl
  | cons line lines ih =>
      rw [Input.closedChunk?] at unclosed
      split at unclosed
      · cases unclosed
      · rename_i goesOn
        rw [List.map_cons, after_cons, feed_line_of_not_closes goesOn, behind, List.append_nil,
          ih (Option.map_eq_none_iff.mp unclosed), List.append_assoc]
        rfl

/-- **An entry is answered when the line comes that closes it**, together with the earlier
lines; and then the dialog goes on with the lines behind it. -/
theorem after_lines_closed {lines entry rest : List Text}
    (closed : Input.closedChunk? lines = some (entry, rest)) (sh : Shell) (earlier : List Text)
    (text : Text) (more : List Event) :
    after ⟨.entry sh earlier, text⟩ (lines.map .line ++ more) =
      ((reply sh (earlier ++ entry)).behind text).after (rest.map .line ++ more) := by
  induction lines generalizing earlier entry with
  | nil => cases closed
  | cons line lines ih =>
      rw [Input.closedChunk?] at closed
      rw [List.map_cons, List.cons_append, after_cons]
      split at closed
      · rename_i closes
        cases closed
        have answered : (Dialog.entry sh earlier).feed (.line line) =
            reply sh (earlier ++ [line]) := if_pos closes
        rw [answered]
      · rename_i goesOn
        obtain ⟨⟨others, behind⟩, found, same⟩ := Option.map_eq_some_iff.mp closed
        cases same
        rw [feed_line_of_not_closes goesOn, Turn.behind, List.append_nil, ih found,
          List.append_assoc]
        rfl

theorem resume_of_running {sh : Shell} (running : sh.state.running = true) :
    resume true sh [] = ⟨.entry sh [], sh.prompt⟩ := by
  rw [resume, if_pos running]
  rfl

/-- Once the user has left, neither scripts nor the prompt follow. -/
theorem resume_of_left {sh : Shell} (left : ¬ sh.state.running = true) (talks : Bool)
    (paths : List Text) : resume talks sh paths = ⟨.over 0, []⟩ :=
  if_neg left

theorem closing_converse_of_left {sh : Shell} (left : ¬ sh.state.running = true) (broken : Bool)
    (lines : List Text) : closing (sh.converse broken lines) = ⟨.over 0, []⟩ := by
  rw [Shell.converse, if_neg left]
  rfl

/-- One entry of a conversation: the prompt, the answer, and then the others.  The recursion looks
for the entry in all the lines at once; the dialog will have been told of them one by one. -/
theorem closing_converse_of_firstEntry {lines rest : List Text} {source : Text} {broken : Bool}
    (readable : (broken && (Input.closedChunk? lines).isNone) = false)
    (first : Input.firstEntry lines = some (source, rest)) {sh : Shell}
    (running : sh.state.running = true) :
    closing (sh.converse broken lines) =
      ((closing ((sh.answer source).shell.converse broken rest)).behind
        (sh.answer source).output).behind sh.prompt := by
  rw [Shell.converse, if_pos running, readable, if_neg Bool.false_ne_true]
  split
  · rename_i nothing
    rw [first] at nothing
    cases nothing
  · rename_i found
    rw [first] at found
    cases found
    simp only [closing, behind, List.append_assoc]

/-- At the end of the input the prompt is written for nothing, unless the user has left.  It is
already there when the dialog learns that nothing follows. -/
theorem after_ended (sh : Shell) (more : List Event) :
    (resume true sh []).after (.ended :: more) = closing (sh.converse false []) := by
  by_cases running : sh.state.running = true
  · have talk : closing (sh.converse false []) = ⟨.over 0, sh.prompt⟩ := by
      rw [Shell.converse, if_pos running]
      rfl
    have ends : (Dialog.entry sh []).feed .ended = ⟨.over 0, []⟩ := rfl
    rw [talk, resume_of_running running, after_cons, ends, behind, List.append_nil, over_after]
  · rw [resume_of_left running, over_after, closing_converse_of_left running]

/-- The events behind the lines that can be read: a line that cannot, or the end of the input.
The end is found a second time if an entry was open, since the prompt follows the answer. -/
def tailEvents (broken : Bool) (more : List Event) : List Event :=
  if broken then .broken :: more else .ended :: .ended :: more

/-- A conversation ends with the lines if none of them closes an entry.  What is left open is
answered at the end of the input, and is lost if a line cannot be read. -/
theorem after_talk_unclosed {lines : List Text} (unclosed : Input.closedChunk? lines = none)
    {sh : Shell} (running : sh.state.running = true) (broken : Bool) (more : List Event) :
    (resume true sh []).after (lines.map .line ++ tailEvents broken more) =
      closing (sh.converse broken lines) := by
  rw [resume_of_running running, after_append, after_lines_unclosed unclosed, List.nil_append]
  cases broken with
  | true =>
      have fails : closing (sh.converse true lines) = ⟨.over 1, sh.prompt⟩ := by
        rw [Shell.converse, if_pos running, unclosed]
        rfl
      have stops : (Dialog.entry sh lines).feed .broken = ⟨.over 1, []⟩ := rfl
      rw [fails, tailEvents, if_pos rfl, after_cons, stops, behind, List.append_nil, over_after]
  | false =>
      rw [tailEvents, if_neg Bool.false_ne_true]
      cases lines with
      | nil => rw [← resume_of_running running, after_ended]
      | cons line lines =>
          -- The open entry is answered, and what follows is the end of the input again.
          have first : Input.firstEntry (line :: lines) =
              some (Input.unlines (line :: lines), []) := by
            simp only [Input.firstEntry, unclosed]
          have answered : (Dialog.entry sh (line :: lines)).feed .ended =
              reply sh (line :: lines) := rfl
          rw [closing_converse_of_firstEntry rfl first running, after_cons, answered, reply,
            behind_after, behind_after, after_ended]

/-- **Lines one after the other are a conversation.**  The induction is on the number of lines;
an entry that is closed leaves fewer of them. -/
theorem after_talk (sh : Shell) (broken : Bool) (lines : List Text) (more : List Event) :
    (resume true sh []).after (lines.map .line ++ tailEvents broken more) =
      closing (sh.converse broken lines) := by
  induction count : lines.length using Nat.strongRecOn generalizing sh lines with
  | ind n ih =>
      subst count
      by_cases running : sh.state.running = true
      · cases chunk : Input.closedChunk? lines with
        | none => exact after_talk_unclosed chunk running broken more
        | some found =>
            obtain ⟨entry, rest⟩ := found
            have first : Input.firstEntry lines = some (Input.unlines entry, rest) := by
              cases lines with
              | nil => cases chunk
              | cons line lines => simp only [Input.firstEntry, chunk]
            have readable : (broken && (Input.closedChunk? lines).isNone) = false := by
              rw [chunk, Option.isNone_some, Bool.and_false]
            have others := ih rest.length (Input.length_closedChunk?_lt chunk)
              (sh.answer (Input.unlines entry)).shell rest rfl
            rw [closing_converse_of_firstEntry readable first running, ← others,
              resume_of_running running, after_lines_closed chunk, List.nil_append, reply,
              behind_after, behind_after]
      · rw [resume_of_left running, over_after, closing_converse_of_left running]

/-! ### Scripts -/

/-- **Scripts one after the other are run as in one go.**  Behind them the dialog is where the
shell has come to, or over if a script could not be read. -/
theorem after_scripts (find : Text → Script) (talks : Bool) (sh : Shell) (paths : List Text)
    (more : List Event) :
    (resume talks sh paths).after (paths.map (fun path => .script (find path)) ++ more) =
      if (sh.runScripts find paths).failed then closing (sh.runScripts find paths)
      else
        ((resume talks (sh.runScripts find paths).shell []).after more).behind
          (sh.runScripts find paths).output := by
  induction paths generalizing sh with
  | nil => rfl
  | cons path paths ih =>
      rw [List.map_cons, List.cons_append, Shell.runScripts]
      by_cases running : sh.state.running = true
      · have waits : resume talks sh (path :: paths) = ⟨.script sh path paths talks, []⟩ := by
          rw [resume, if_pos running]
        rw [if_pos running, waits, after_cons, behind_nil, feed]
        by_cases failed : (sh.runScript path (find path)).failed = true
        · simp only [if_pos failed, over_after, closing]
        · simp only [if_neg failed]
          rw [behind_after, ih]
          split
          · rfl
          · rw [behind_behind]
      · rw [if_neg running, resume_of_left running, over_after, if_neg Bool.false_ne_true,
          resume_of_left running, over_after]
        rfl

/-- The scripts that the command asks for, in the order in which they are looked for. -/
def scripts (arguments : List Text) : List Text :=
  match Request.ofArguments arguments with
  | .ok (.run o) => o.scripts
  | _ => []

/-- The whole command, told of the lines of its input.  Events about scripts come first, one for
each script, and those that are not waited for are let pass. -/
theorem start_after_lines (arguments : List Text) (find : Text → Script) (input : Input)
    (more : List Event) :
    (start arguments).after ((scripts arguments).map (fun path => .script (find path)) ++
        (input.lines.map .line ++ tailEvents input.broken more)) =
      ⟨.over (Shell.perform arguments find input).exitCode,
        (Shell.perform arguments find input).output⟩ := by
  unfold start scripts Shell.perform
  cases Request.ofArguments arguments with
  | error fault => simp only [over_after]
  | ok request =>
      cases request with
      | version | help => simp only [over_after]
      | run o =>
          show ((resume (!o.has .noRepl) (Shell.start o) o.scripts).behind _).after _ =
            closing (Shell.session o find input)
          rw [behind_after, after_scripts, Shell.session]
          by_cases failed : ((Shell.start o).runScripts find o.scripts).failed = true
          · rw [if_pos failed, failed, Bool.true_or, if_pos rfl]
            simp only [closing, behind, failed]
          · rw [if_neg failed, Bool.eq_false_iff.mpr failed, Bool.false_or]
            by_cases silent : o.has .noRepl = true
            · have stops (sh : Shell) (events : List Event) :
                  (resume (!true) sh []).after events = ⟨.over 0, []⟩ := by
                have waits : resume (!true) sh [] = ⟨.over 0, []⟩ := by
                  rw [resume]
                  split <;> rfl
                rw [waits, over_after]
              rw [if_pos silent, silent, stops]
              simp only [closing, behind, List.append_nil, if_neg Bool.false_ne_true]
            · rw [if_neg silent, Bool.eq_false_iff.mpr silent, Bool.not_false, after_talk]
              simp only [closing, behind, List.append_assoc]

/-! ### Reading line by line -/

/-- The bytes up to a newline are one line, whatever follows it.  So a line can be told before
the ones behind it have been read. -/
theorem exists_byteLine {body : List UInt8} (inLine : 10 ∉ body) (current : List UInt8) :
    ∃ line, Input.byteLines current (body ++ [10]) = [line] ∧
      ∀ rest, Input.byteLines current (body ++ 10 :: rest) = line :: Input.byteLines [] rest := by
  induction body generalizing current with
  | nil =>
      by_cases carriage : ∃ line, current = 13 :: line
      · obtain ⟨line, rfl⟩ := carriage
        exact ⟨line.reverse, rfl, fun rest => rfl⟩
      · have ends (rest : List UInt8) :
            Input.byteLines current (10 :: rest) = current.reverse :: Input.byteLines [] rest := by
          rw [Input.byteLines]
          exact fun line same => carriage ⟨line, same⟩
        exact ⟨current.reverse, ends [], ends⟩
  | cons byte body ih =>
      rw [List.mem_cons, not_or] at inLine
      obtain ⟨line, only, first⟩ := ih inLine.2 (byte :: current)
      refine ⟨line, ?_, fun rest => ?_⟩
      · rw [List.cons_append, Input.byteLines, only]
        exact Ne.symm inLine.1
      · rw [List.cons_append, Input.byteLines, first]
        exact Ne.symm inLine.1

/-- The bytes behind the last newline are at most one line.  They are one also if no newline ends
it. -/
theorem byteLines_last {tail : List UInt8} (inLine : 10 ∉ tail) (current : List UInt8) :
    Input.byteLines current tail = [] ∨ ∃ line, Input.byteLines current tail = [line] := by
  induction tail generalizing current with
  | nil =>
      rw [Input.byteLines]
      split
      · exact Or.inl rfl
      · exact Or.inr ⟨_, rfl⟩
  | cons byte tail ih =>
      rw [List.mem_cons, not_or] at inLine
      rw [Input.byteLines]
      · exact ih inLine.2 (byte :: current)
      · exact Ne.symm inLine.1

/-- What a piece of input is read as, if it is one line: the line, if its bytes are text. -/
theorem ofBytes_of_byteLine {bytes line : List UInt8}
    (only : Input.byteLines [] bytes = [line]) :
    Event.ofBytes bytes = (decodeUtf8? line).elim .broken .line := by
  rw [Event.ofBytes, Input.ofBytes, only, Input.ofByteLines]
  cases decodeUtf8? line <;> rfl

/-- **Reading the input in pieces gives its lines.**  The pieces are the lines with their
newlines, then what stands behind the last newline, and then nothing as often as it is asked
for.  They are told as the lines that can be read, and as what is behind these. -/
theorem exists_events {bodies : List (List UInt8)} {tail : List UInt8}
    (complete : ∀ body ∈ bodies, 10 ∉ body) (inLine : 10 ∉ tail) {input : Input}
    (whole : Input.ofBytes (bodies.flatMap (· ++ [10]) ++ tail) = input) :
    ∃ more, (bodies.map (· ++ [10]) ++ [tail, [], []]).map Event.ofBytes =
      input.lines.map .line ++ tailEvents input.broken more := by
  subst whole
  induction bodies with
  | nil =>
      rw [List.flatMap_nil, List.nil_append, Input.ofBytes]
      rcases byteLines_last inLine [] with nothing | ⟨line, only⟩
      · refine ⟨[.ended], ?_⟩
        have ends : Event.ofBytes tail = .ended := by
          rw [Event.ofBytes, Input.ofBytes, nothing]
          rfl
        rw [nothing, List.map_nil, List.nil_append, List.map_cons, ends]
        rfl
      · rw [List.map_nil, List.nil_append, List.map_cons, ofBytes_of_byteLine only, only,
          Input.ofByteLines]
        cases decodeUtf8? line with
        | none => exact ⟨[.ended, .ended], rfl⟩
        | some text => exact ⟨[], rfl⟩
  | cons body bodies ih =>
      obtain ⟨inBody, complete⟩ := List.forall_mem_cons.mp complete
      obtain ⟨line, only, first⟩ := exists_byteLine inBody []
      have split : (body :: bodies).flatMap (· ++ [10]) ++ tail =
          body ++ 10 :: (bodies.flatMap (· ++ [10]) ++ tail) := by
        simp
      rw [split, Input.ofBytes, first, List.map_cons, List.cons_append, List.map_cons,
        ofBytes_of_byteLine only, Input.ofByteLines]
      cases decodeUtf8? line with
      | none => exact ⟨_, rfl⟩
      | some text =>
          obtain ⟨more, events⟩ := ih complete
          exact ⟨more, congrArg (.line text :: ·) events⟩

/-- **The dialog is the command.**  Tell it what is found under the paths of its scripts, and
then the input piece by piece as it is read: in all it writes what the command writes with
these files and this input, and it ends with the same exit code. -/
theorem start_after (arguments : List Text) (find : Text → Script) {bodies : List (List UInt8)}
    {tail : List UInt8} (complete : ∀ body ∈ bodies, 10 ∉ body) (inLine : 10 ∉ tail)
    {outcome : Outcome}
    (whole : Shell.perform arguments find
      (.ofBytes (bodies.flatMap (· ++ [10]) ++ tail)) = outcome) :
    (start arguments).after ((scripts arguments).map (fun path => .script (find path)) ++
        (bodies.map (· ++ [10]) ++ [tail, [], []]).map .ofBytes) =
      ⟨.over outcome.exitCode, outcome.output⟩ := by
  obtain ⟨more, events⟩ := exists_events complete inLine rfl
  rw [events, start_after_lines, whole]

end Dialog

end Pizzeria
