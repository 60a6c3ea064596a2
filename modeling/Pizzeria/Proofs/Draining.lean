import Mathlib.Data.List.Induction
import Pizzeria.Proofs.CommentLines
import Pizzeria.Proofs.Sequencing

/-!
# The console keeps every line once

A console is printed to and drained, in any order.  Draining moves the lines to whoever asked
for them and leaves the number of the statement alone.  So it makes no difference to the lines
that were printed, drained or not: each act adds its own lines behind them, under the number
that was given last, and draining adds none.

## Main Definitions

* `Console.Act` — what can be done with a console.
* `Console.after` — the batches that were drained, and the console, behind some acts.
* `Console.latest` — the number that was given last.
* `Console.Rendering` — lines are those of a text, by their properties.

## Main Results

* `Console.rendering_iff`, `Console.Act.prints_iff` — the properties determine the lines.
* `Console.captured_after_concat` — an act adds its lines behind those that were printed.
* `Console.captured_after_undrained` — draining changes nothing about the lines.
-/

namespace Pizzeria

namespace Console

/-- What can be done with a console. -/
inductive Act where
  | forStatement (number : Nat)
  | print (text : Text)
  | printAll (texts : List Text)
  | error (text : Text)
  | drain
  deriving DecidableEq

/-- The batches that were drained so far, and the console that they were drained from. -/
structure Usage where
  batches : List (List Line) := []
  console : Console := {}

/-- All lines that were printed, whether or not they have been drained. -/
def Usage.captured (u : Usage) : List Line := u.batches.flatten ++ u.console.lines

namespace Act

/-- What comes of an act. -/
def apply (u : Usage) : Act → Usage
  | forStatement number => { u with console := u.console.forStatement number }
  | print text => { u with console := u.console.print text }
  | printAll texts => { u with console := u.console.printAll texts }
  | error text => { u with console := u.console.error text }
  | drain => ⟨u.batches ++ [u.console.takeLines.1], u.console.takeLines.2⟩

/-- The number that an act gives to what is printed from then on. -/
def number? : Act → Option Nat
  | forStatement number => some number
  | print _ | printAll _ | error _ | drain => none

/-- The texts that an act prints one after the other. -/
def texts : Act → List Text
  | print text | error text => [text]
  | printAll texts => texts
  | forStatement _ | drain => []

/-- What an act prints its texts as. -/
def channel : Act → Channel
  | error _ => .error
  | forStatement _ | print _ | printAll _ | drain => .output

/-- The lines that an act prints under a number. -/
def lines (number : Nat) (act : Act) : List Line :=
  act.texts.flatMap fun text => text.lines.map (⟨·, act.channel, number⟩)

end Act

/-- What acts lead to, one after the other, from a new console on. -/
def after (acts : List Act) : Usage := acts.foldl Act.apply {}

/-- The number that was given last; zero if none was. -/
def latest (acts : List Act) : Nat := (acts.filterMap Act.number?).getLast?.getD 0

/-! ### The lines of a text -/

/-- The lines are those of a text: they are of one kind and number, none of them has a newline,
and with newlines between them they are the text again.  There is at least one, since an empty
text is an empty line. -/
structure Rendering (kind : Channel) (number : Nat) (text : Text) (lines : List Line) : Prop where
  nonempty : lines ≠ []
  inLine : ∀ l ∈ lines, '\n' ∉ l.text
  joined : Text.join ['\n'] (lines.map Line.text) = text
  tagged : ∀ l ∈ lines, l.kind = kind ∧ l.statement = number

/-- The lines that a text is printed as have the properties; in particular joining them gives the
text again, so nothing is lost in splitting. -/
theorem rendering_lines (kind : Channel) (number : Nat) (text : Text) :
    Rendering kind number text (text.lines.map (⟨·, kind, number⟩)) where
  nonempty := mt List.map_eq_nil_iff.mp text.lines_ne_nil
  inLine := by
    intro l mem
    obtain ⟨part, inText, rfl⟩ := List.mem_map.mp mem
    exact Text.notMem_of_mem_splitOn inText
  joined := by
    rw [List.map_map]
    exact (congrArg (Text.join ['\n']) (List.map_id _)).trans text.join_lines
  tagged := by
    intro l mem
    obtain ⟨part, -, rfl⟩ := List.mem_map.mp mem
    exact ⟨rfl, rfl⟩

/-- The lines of a text are determined by their properties.  Splitting at newlines is the only way
to have them, so saying how texts are printed does not have to mention it. -/
theorem rendering_iff {kind : Channel} {number : Nat} {text : Text} {lines : List Line} :
    Rendering kind number text lines ↔ lines = text.lines.map (⟨·, kind, number⟩) := by
  constructor
  · intro rendering
    have parts : text.lines = lines.map Line.text := by
      rw [← rendering.joined]
      refine Text.lines_join (mt List.map_eq_nil_iff.mp rendering.nonempty) ?_
      intro part mem
      obtain ⟨l, inLines, rfl⟩ := List.mem_map.mp mem
      exact rendering.inLine l inLines
    have same : ∀ l ∈ lines, (⟨l.text, kind, number⟩ : Line) = l := by
      intro l mem
      obtain ⟨rfl, rfl⟩ := rendering.tagged l mem
      rfl
    rw [parts, List.map_map]
    exact ((List.map_congr_left same).trans (List.map_id _)).symm
  · rintro rfl
    exact rendering_lines kind number text

/-- The lines are those of an act under a number: the lines of its texts, text by text. -/
def Act.Prints (number : Nat) (act : Act) (lines : List Line) : Prop :=
  ∃ parts, List.Forall₂ (Rendering act.channel number) act.texts parts ∧ lines = parts.flatten

/-- What an act prints is determined by the properties of its lines, as it is text by text;
nothing but its own lines could stand in its place. -/
theorem Act.prints_iff {number : Nat} {act : Act} {lines : List Line} :
    act.Prints number lines ↔ lines = act.lines number := by
  have rendering : Rendering act.channel number =
      fun text part => text.lines.map (⟨·, act.channel, number⟩) = part := by
    funext text part
    exact propext (rendering_iff.trans eq_comm)
  have parts_iff {parts : List (List Line)} :
      List.Forall₂ (Rendering act.channel number) act.texts parts ↔
        act.texts.map (fun text => text.lines.map (⟨·, act.channel, number⟩)) = parts := by
    rw [rendering, ← List.forall₂_map_left_iff (R := Eq), List.forall₂_eq_eq_eq]
  constructor
  · rintro ⟨parts, renderings, rfl⟩
    rw [← parts_iff.mp renderings]
    rfl
  · rintro rfl
    exact ⟨_, parts_iff.mpr rfl, rfl⟩

/-! ### One act -/

/-- What one act adds to the lines that were printed.  Draining adds none: it only moves lines
from the console to the batches, and the concatenation does not see that. -/
theorem captured_apply (u : Usage) (act : Act) :
    (act.apply u).captured = u.captured ++ act.lines u.console.statement := by
  cases act with
  | forStatement number => exact (List.append_nil _).symm
  | print text | error text =>
      rw [Act.lines, Act.texts, List.flatMap_singleton]
      exact (List.append_assoc ..).symm
  | printAll texts =>
      have printed : (u.console.printAll texts).lines =
          u.console.lines ++ (Act.printAll texts).lines u.console.statement := by
        rw [printAll_eq]
        rfl
      rw [Act.apply, Usage.captured, printed, ← List.append_assoc]
      rfl
  | drain =>
      -- The lines move from the console to the end of the batches.
      have moved : (Act.drain.apply u).captured = (u.batches ++ [u.console.lines]).flatten ++ [] :=
        rfl
      rw [moved, List.flatten_append, List.flatten_singleton]
      rfl

/-- An act that gives a number sets it, and all others leave it.  Draining is among these, which a
console that started anew would get wrong. -/
theorem statement_apply (u : Usage) (act : Act) :
    (act.apply u).console.statement = act.number?.getD u.console.statement := by
  cases act with
  | printAll texts =>
      show (u.console.printAll texts).statement = u.console.statement
      rw [printAll_eq]
  | forStatement _ | print _ | error _ | drain => rfl

/-! ### All acts -/

/-- Acts are done from the first to the last, so the last one meets what the others have led to.
The inductions below are on the acts from their end for that reason. -/
theorem after_concat (acts : List Act) (act : Act) :
    after (acts ++ [act]) = act.apply (after acts) := by
  rw [after, List.foldl_append]
  rfl

theorem latest_concat (acts : List Act) (act : Act) :
    latest (acts ++ [act]) = act.number?.getD (latest acts) := by
  rw [latest, List.filterMap_append]
  cases given : act.number? <;> simp [given, latest]

/-- The console is at the number that was given last, however often it was drained.  It is this
number that the next act prints under. -/
theorem statement_after (acts : List Act) : (after acts).console.statement = latest acts := by
  induction acts using List.reverseRecOn with
  | nil => rfl
  | append_singleton acts act ih => rw [after_concat, statement_apply, latest_concat, ih]

/-- An act adds its lines behind all that were printed before.  This is the step of every
induction about captured lines. -/
theorem captured_after_concat (acts : List Act) (act : Act) :
    (after (acts ++ [act])).captured = (after acts).captured ++ act.lines (latest acts) := by
  rw [after_concat, captured_apply, statement_after]

/-- The acts without those that drain. -/
def undrained (acts : List Act) : List Act := acts.filter (· != .drain)

theorem undrained_concat_drain (acts : List Act) :
    undrained (acts ++ [.drain]) = undrained acts := by
  rw [undrained, List.filter_append]
  exact List.append_nil _

theorem undrained_concat {act : Act} (prints : act ≠ .drain) (acts : List Act) :
    undrained (acts ++ [act]) = undrained acts ++ [act] := by
  rw [undrained, List.filter_append, List.filter_cons_of_pos (by simpa using prints)]
  rfl

/-- Without draining there are no batches, so that all lines are still on the console. -/
theorem batches_after_undrained (acts : List Act) : (after (undrained acts)).batches = [] := by
  induction acts using List.reverseRecOn with
  | nil => rfl
  | append_singleton acts act ih =>
      by_cases drains : act = .drain
      · rw [drains, undrained_concat_drain, ih]
      · rw [undrained_concat drains, after_concat]
        cases act with
        | drain => exact absurd rfl drains
        | forStatement _ | print _ | printAll _ | error _ => exact ih

/-- Draining gives no number, so taking it out leaves the number that was given last. -/
theorem latest_undrained (acts : List Act) : latest (undrained acts) = latest acts := by
  induction acts using List.reverseRecOn with
  | nil => rfl
  | append_singleton acts act ih =>
      by_cases drains : act = .drain
      · rw [drains, undrained_concat_drain, ih, latest_concat]
        rfl
      · rw [undrained_concat drains, latest_concat, latest_concat, ih]

/-- Draining moves lines, and neither loses nor repeats any.  The lines are those of a console
that is never drained, in the same order and under the same numbers. -/
theorem captured_after_undrained (acts : List Act) :
    (after (undrained acts)).captured = (after acts).captured := by
  induction acts using List.reverseRecOn with
  | nil => rfl
  | append_singleton acts act ih =>
      rw [captured_after_concat]
      by_cases drains : act = .drain
      · rw [drains, undrained_concat_drain, ih]
        exact (List.append_nil _).symm
      · rw [undrained_concat drains, captured_after_concat, ih, latest_undrained]

/-- The lines that each act printed. -/
def blocks (acts : List Act) : List (List Line) :=
  acts.mapIdx fun i act => act.lines (latest (acts.take i))

theorem blocks_concat (acts : List Act) (act : Act) :
    blocks (acts ++ [act]) = blocks acts ++ [act.lines (latest acts)] := by
  unfold blocks
  rw [List.mapIdx_concat, List.take_left]
  congr 1
  apply List.mapIdx_eq_mapIdx_iff.mpr
  intro i within
  rw [List.take_append_of_le_length (Nat.le_of_lt within)]

/-- All lines, block by block: the lines of each act under the number that was in force when it
was done. -/
theorem captured_after (acts : List Act) : (after acts).captured = (blocks acts).flatten := by
  induction acts using List.reverseRecOn with
  | nil => rfl
  | append_singleton acts act ih =>
      rw [captured_after_concat, ih, blocks_concat, List.flatten_append, List.flatten_singleton]

/-- **The console neither loses nor repeats what is printed.**  Whatever is done with a new
console, the batches that were drained and the lines that are left are together the lines that
it would hold if it had never been drained.  None of them has a newline.  They are, act by act,
the lines of the texts that the act prints: a text is had again from its lines by putting
newlines between them, and each line has the kind of its act and the number that was given last
before it, zero if none was. -/
theorem captured_exact (acts : List Act) :
    (after acts).batches.flatten ++ (after acts).console.lines =
        (after (undrained acts)).console.lines ∧
      (∀ l ∈ (after acts).batches.flatten ++ (after acts).console.lines, '\n' ∉ l.text) ∧
      ∃ printed : List (List Line),
        (after acts).batches.flatten ++ (after acts).console.lines = printed.flatten ∧
          printed.length = acts.length ∧
          ∀ (i : Nat) (act : Act) (lines : List Line), acts[i]? = some act →
            printed[i]? = some lines → act.Prints (latest (acts.take i)) lines := by
  refine ⟨?_, ?_, blocks acts, captured_after acts, List.length_mapIdx, ?_⟩
  · have kept := captured_after_undrained acts
    rw [Usage.captured, batches_after_undrained] at kept
    exact kept.symm
  · intro l mem
    rw [show _ ++ _ = (blocks acts).flatten from captured_after acts] at mem
    obtain ⟨block, mem, inBlock⟩ := List.mem_flatten.mp mem
    obtain ⟨i, within, rfl⟩ := List.mem_mapIdx.mp mem
    obtain ⟨text, -, inText⟩ := List.mem_flatMap.mp inBlock
    exact (rendering_lines _ _ text).inLine l inText
  · intro i act lines here printed
    rw [blocks, List.getElem?_mapIdx, here, Option.map_some, Option.some.injEq] at printed
    exact Act.prints_iff.mpr printed.symm

-- A newline at the end begins one more line, an empty text is a line, and the number stays.
example :
    (after [.forStatement 4, .print "one\n", .drain, .error ""]).captured =
      [⟨"one", .output, 4⟩, ⟨"", .output, 4⟩, ⟨"", .error, 4⟩] := by
  decide

end Console

end Pizzeria
