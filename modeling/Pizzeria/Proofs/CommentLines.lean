import Mathlib.Data.List.Induction
import Pizzeria.Proofs.Comment
import Pizzeria.Proofs.Words

/-!
# Comments, line by line

What leaving comments out does to the lines of a text, said without going through the text
character by character with a zone.  A text is tracked by the closer that is due: an opener
makes its closer due, that closer makes nothing due again, and what stands in a comment does
not count.  A `#` stands outside where no closer is due; it begins a comment, which ends with
its line.

Every line is cut in front of its `#` outside, if it has one, and all else is kept.  So the
lines keep their numbers and the characters of a line their columns; only the newline that ends
a comment moves, to the column of the `#`.  The closers that are due in what is left are those
that were due in the text, hence nothing is left out a second time.

## Main Definitions

* `Comment.Tracked`, `Comment.Outside` — the closer that is due behind a text, and that none is.
* `Text.lines`, `Text.beforeLine` — the lines of a text, and what stands in front of one.
* `Comment.CutBefore` — a line is cut in front of its first `#` outside.
* `Comment.Lands` — where a character of the text stands in what is left.

## Main Results

* `Comment.tracked_iff` — the closer that is due is the one of the zone.
* `Zone.lines_kept` — leaving comments out goes line by line.
* `atLocation?_uncomment_iff` — what stands where in what is left.
* `Zone.kept_kept` — nothing is left out a second time.
-/

namespace Pizzeria

/-! ### Lines -/

namespace Text

/-- The lines of the text, without the newlines between them. -/
def lines (t : Text) : List Text := split '\n' t

/-- What stands in front of the line with the number `i`, counted from zero. -/
def beforeLine (t : Text) (i : Nat) : Text := (t.lines.take i).flatMap (· ++ ['\n'])

/-- A text is its lines with newlines between them; splitting it loses nothing. -/
theorem join_lines (t : Text) : join ['\n'] t.lines = t := List.intercalate_splitOn '\n'

/-- Lines without newlines in them are the lines of the text that they are joined to.  Together
with `join_lines` this makes lines and text two forms of one thing. -/
theorem lines_join {parts : List Text} (nonempty : parts ≠ [])
    (inLine : ∀ part ∈ parts, '\n' ∉ part) : (join ['\n'] parts).lines = parts :=
  List.splitOn_intercalate '\n' inLine nonempty

theorem lines_ne_nil (t : Text) : t.lines ≠ [] := List.splitOn_ne_nil '\n' t

end Text

/-! ### Closers that are due -/

/-- The closer that is due behind the character, `due` being due in front of it; `none` where
no closer is.  While a closer is due, nothing else opens. -/
def closerAfter (due : Option Char) (c : Char) : Option Char :=
  match due with
  | none => (bracket? c).map Prod.fst
  | some closer => if c = closer then none else some closer

namespace Comment

/-- The text does not end in a comment, and the closer is the one that is due behind it. -/
inductive Tracked : Text → Option Char → Prop where
  | start : Tracked [] none
  /-- A character that does not begin a comment. -/
  | char {front : Text} {due : Option Char} {c : Char} (tracked : Tracked front due)
      (code : due = none → c ≠ '#') : Tracked (front ++ [c]) (closerAfter due c)
  /-- A comment, up to the end of its line. -/
  | comment {front note : Text} (tracked : Tracked front none) (inLine : '\n' ∉ note) :
      Tracked (front ++ '#' :: (note ++ ['\n'])) none

/-- The place behind the text is outside brackets, strings and comments. -/
def Outside (front : Text) : Prop := Tracked front none

/-- The character at `l` in the text is left, and stands at `k` in what is left. -/
inductive Lands (text : Text) : Char → Location → Location → Prop where
  /-- A character outside comments that does not begin one stays where it is. -/
  | stays {front back : Text} {due : Option Char} {c : Char} (split : text = front ++ c :: back)
      (tracked : Tracked front due) (code : due = none → c ≠ '#') :
      Lands text c (Location.start.past front) (Location.start.past front)
  /-- The newline that ends a comment moves to where the comment began. -/
  | ends {front note back : Text} (split : text = front ++ '#' :: (note ++ '\n' :: back))
      (outside : Outside front) (inLine : '\n' ∉ note) :
      Lands text '\n' (Location.start.past (front ++ '#' :: note)) (Location.start.past front)

/-- Nothing that is left changes its line: what the newline behind a comment moves over has no
newline in it. -/
theorem Lands.line_eq {text : Text} {c : Char} {l k : Location} (lands : Lands text c l k) :
    l.line = k.line := by
  cases lands with
  | stays => rfl
  | ends _ _ inLine =>
      rw [Location.past_append, Location.past_of_notMem (by simp [inLine])]

/-- The text is what is left of the line if it is cut in front of its first `#` outside, or the
whole line if it has none.  The line stands behind `before`. -/
def CutBefore (before line left : Text) : Prop :=
  (∀ front note, left = front ++ '#' :: note → ¬ Outside (before ++ front)) ∧
    (left = line ∨ ∃ note, line = left ++ '#' :: note ∧ Outside (before ++ left))

end Comment

namespace Zone

/-- The zone in which the closer is due. -/
def ofDue : Option Char → Zone
  | none => code
  | some closer => literal closer

theorem ofDue_injective {due due' : Option Char} (same : ofDue due = ofDue due') : due = due' := by
  cases due <;> cases due' <;> cases same <;> rfl

/-- A closer that is due, or none, is never a comment.  Tracking ends where a comment begins, and
goes on behind its newline. -/
theorem ofDue_ne_comment (due : Option Char) (start : Location) : ofDue due ≠ comment start := by
  cases due <;> exact Zone.noConfusion

theorem ofDue_eq_code_iff {due : Option Char} : ofDue due = code ↔ due = none := by
  cases due <;> simp [ofDue]

/-- A character that begins no comment is kept and makes its closer due.  This is one step of the
zone, said of the closer alone. -/
theorem after_ofDue {due : Option Char} {c : Char} (code : due = none → c ≠ '#') (l : Location) :
    (ofDue due).after l c = ofDue (closerAfter due c) ∧ (ofDue due).comments c = false := by
  cases due with
  | none =>
      have notComment := code rfl
      cases opens : bracket? c with
      | none => simp [ofDue, after, closerAfter, comments, notComment, opens]
      | some pair => simp [ofDue, after, closerAfter, comments, notComment, opens]
  | some closer =>
      refine ⟨?_, rfl⟩
      simp only [ofDue, after, closerAfter]
      split <;> rfl

end Zone

namespace Comment

/-- Every text is tracked, or it ends in a comment that is not ended.  The induction is on the
text from its end, since both are a matter of the last character. -/
theorem tracked_or_open (text : Text) :
    (∃ due, Tracked text due ∧ Zone.code.past .start text = .ofDue due) ∨
      ∃ front note, text = front ++ '#' :: note ∧ Outside front ∧ '\n' ∉ note ∧
        Zone.code.past .start text = .comment (Location.start.past front) := by
  -- From the end: the last character leads into a comment, out of one, or neither.
  induction text using List.reverseRecOn with
  | nil => exact Or.inl ⟨none, .start, rfl⟩
  | append_singleton text c ih =>
      rw [Zone.past_append]
      rcases ih with ⟨due, tracked, zone⟩ | ⟨front, note, rfl, outside, inLine, zone⟩
      · rw [zone]
        by_cases opens : due = none ∧ c = '#'
        · obtain ⟨rfl, rfl⟩ := opens
          exact Or.inr ⟨text, [], rfl, tracked, List.not_mem_nil, rfl⟩
        · have code : due = none → c ≠ '#' := fun absent hash => opens ⟨absent, hash⟩
          exact Or.inl ⟨closerAfter due c, .char tracked code, (Zone.after_ofDue code _).1⟩
      · rw [zone]
        by_cases ends : c = '\n'
        · subst ends
          refine Or.inl ⟨none, ?_, rfl⟩
          have tracked := Tracked.comment outside inLine
          simpa using tracked
        · refine Or.inr ⟨front, note ++ [c], by simp, outside, ?_, if_neg ends⟩
          simp [inLine, Ne.symm ends]

/-- A tracked text leads to the zone of its closer, by induction on how it is tracked. -/
theorem past_of_tracked {text : Text} {due : Option Char} (tracked : Tracked text due) :
    Zone.code.past .start text = .ofDue due := by
  induction tracked with
  | start => rfl
  | @char front due c _ code ih =>
      rw [Zone.past_append, ih]
      exact (Zone.after_ofDue code _).1
  | @comment front note _ inLine ih =>
      rw [Zone.past_append, ih]
      exact (Zone.code_comment inLine _).1

/-- The closer that is due is the one of the zone.  So where a `#` stands outside can be said by
going through openers and closers only. -/
theorem tracked_iff {text : Text} {due : Option Char} :
    Tracked text due ↔ Zone.code.past .start text = .ofDue due := by
  refine ⟨past_of_tracked, fun zone => ?_⟩
  rcases tracked_or_open text with ⟨due', tracked, zone'⟩ | ⟨_, _, _, _, _, inside⟩
  · obtain rfl := Zone.ofDue_injective (zone.symm.trans zone')
    exact tracked
  · exact absurd (zone.symm.trans inside) (Zone.ofDue_ne_comment due _)

end Comment

/-! ### What is left of the lines -/

namespace Zone

/-- Nothing is added and nothing is moved when comments are left out. -/
theorem kept_sublist (zone : Zone) (l : Location) (t : Text) : (zone.kept l t).Sublist t := by
  induction t generalizing zone l with
  | nil => exact .slnil
  | cons c t ih =>
      rw [kept]
      split
      · exact (ih _ _).cons c
      · exact (ih _ _).cons_cons c

/-- What is left of a line is cut off in front of its first `#` outside.  If there is none, all of
the line is left. -/
theorem kept_line_cases {line : Text} (inLine : '\n' ∉ line) (due : Option Char) (l : Location) :
    (∀ front note, (ofDue due).kept l line = front ++ '#' :: note →
        (ofDue due).past l front ≠ code) ∧
      ((ofDue due).kept l line = line ∨ ∃ note, line = (ofDue due).kept l line ++ '#' :: note ∧
        (ofDue due).past l ((ofDue due).kept l line) = code) := by
  induction line generalizing due l with
  | nil => exact ⟨by simp [kept], Or.inl rfl⟩
  | cons c line ih =>
      rw [List.mem_cons, not_or] at inLine
      by_cases opens : due = none ∧ c = '#'
      -- The comment takes the rest of the line.
      · obtain ⟨rfl, rfl⟩ := opens
        have left : code.kept l ('#' :: line) = [] := (comment_inside inLine.2 l (l.after '#')).2
        show (∀ front note, code.kept l ('#' :: line) = _ → _) ∧ _
        rw [ofDue, left]
        exact ⟨by simp, Or.inr ⟨line, rfl, rfl⟩⟩
      · have begins : due = none → c ≠ '#' := fun absent hash => opens ⟨absent, hash⟩
        obtain ⟨next, keeps⟩ := after_ofDue begins l
        have left : (ofDue due).kept l (c :: line) =
            c :: (ofDue (closerAfter due c)).kept (l.after c) line := by
          rw [kept, keeps, next]
          rfl
        obtain ⟨before, whole⟩ := ih inLine.2 (closerAfter due c) (l.after c)
        rw [left]
        constructor
        · intro front note split
          cases front with
          | nil =>
              obtain ⟨rfl, -⟩ := List.cons.inj split
              intro zone
              exact begins (ofDue_eq_code_iff.mp zone) rfl
          | cons d front =>
              obtain ⟨rfl, tail⟩ := List.cons.inj split
              rw [past, next]
              exact before front note tail
        · rcases whole with whole | ⟨note, split, zone⟩
          · exact Or.inl (by rw [whole])
          · refine Or.inr ⟨note, by rw [List.cons_append, ← split], ?_⟩
            rw [past, next]
            exact zone

/-- What is left of lines, one after the other. -/
def keptLines (zone : Zone) (l : Location) : List Text → List Text
  | [] => []
  | line :: lines =>
      zone.kept l line ::
        (zone.past l (line ++ ['\n'])).keptLines (l.past (line ++ ['\n'])) lines

/-- Each line leaves one line, if only an empty one.  This is why lines keep their numbers. -/
theorem length_keptLines (zone : Zone) (l : Location) (lines : List Text) :
    (zone.keptLines l lines).length = lines.length := by
  induction lines generalizing zone l with
  | nil => rfl
  | cons line lines ih => rw [keptLines, List.length_cons, ih, List.length_cons]

/-- A line is left as the zone in front of it says.  The zone depends on the lines above it, as
they may leave a literal open. -/
theorem getElem?_keptLines (zone : Zone) (l : Location) (lines : List Text) (i : Nat) :
    (zone.keptLines l lines)[i]? = lines[i]?.map fun line =>
      (zone.past l ((lines.take i).flatMap (· ++ ['\n']))).kept
        (l.past ((lines.take i).flatMap (· ++ ['\n']))) line := by
  induction lines generalizing zone l i with
  | nil => rfl
  | cons line lines ih =>
      cases i with
      | zero => rfl
      | succ i =>
          rw [keptLines, List.getElem?_cons_succ, List.getElem?_cons_succ, ih, List.take_succ_cons,
            List.flatMap_cons]
          simp only [past_append zone l (line ++ ['\n']), Location.past_append l (line ++ ['\n'])]

/-- Leaving comments out of joined lines leaves joined lines.  The newline that ends a comment is
kept, so no two lines are run together. -/
theorem kept_join (zone : Zone) (l : Location) (line : Text) (lines : List Text) :
    zone.kept l (Text.join ['\n'] (line :: lines)) =
      Text.join ['\n'] (zone.keptLines l (line :: lines)) := by
  induction lines generalizing zone l line with
  | nil => rw [keptLines, keptLines, Text.join_singleton, Text.join_singleton]
  | cons next lines ih =>
      rw [keptLines, keptLines, Text.join_cons_cons, Text.join_cons_cons, ← List.append_assoc,
        kept_append, kept_line, ih, List.append_assoc]
      rfl

/-- Leaving comments out goes line by line.  The lines of what is left are what is left of the
lines. -/
theorem lines_kept (zone : Zone) (l : Location) (text : Text) :
    (zone.kept l text).lines = zone.keptLines l text.lines := by
  obtain ⟨line, lines, shape⟩ := List.exists_cons_of_ne_nil text.lines_ne_nil
  have joined : zone.kept l text = Text.join ['\n'] (zone.keptLines l text.lines) := by
    rw [shape, ← kept_join, ← shape, Text.join_lines]
  have nonempty : zone.keptLines l text.lines ≠ [] := by
    rw [shape]
    exact List.cons_ne_nil _ _
  rw [joined]
  refine Text.lines_join nonempty ?_
  intro part mem newline
  obtain ⟨i, found⟩ := List.mem_iff_getElem?.mp mem
  rw [getElem?_keptLines, Option.map_eq_some_iff] at found
  obtain ⟨line, found, rfl⟩ := found
  have inside := (kept_sublist _ _ line).subset newline
  exact Text.notMem_of_mem_splitOn (List.mem_of_getElem? found) inside

/-- In front of a line there is no comment, since the newline has ended it.  A line begins in code
or in a literal. -/
theorem past_beforeLine_ne_comment (zone : Zone) (l : Location) (text : Text) (i : Nat)
    (closed : ∀ start, zone ≠ comment start) (start : Location) :
    zone.past l (text.beforeLine i) ≠ comment start := by
  unfold Text.beforeLine
  rcases List.eq_nil_or_concat (text.lines.take i) with empty | ⟨others, last, shape⟩
  · rw [empty]
    exact closed start
  · rw [shape, List.concat_eq_append, List.flatMap_append, List.flatMap_singleton,
      ← List.append_assoc]
    exact past_line_ne_comment zone l _ start

/-! ### Places -/

/-- Places that answer to each other in front of a text do so behind it, since each character
moves both places or is dropped. -/
theorem Aligned.past {zone : Zone} {l k : Location} (aligned : zone.Aligned l k) (t : Text) :
    (zone.past l t).Aligned (l.past t) (k.past (zone.kept l t)) := by
  induction t generalizing zone l k with
  | nil => exact aligned
  | cons c t ih =>
      rw [Zone.past, Zone.kept]
      cases drops : zone.comments c with
      | true => exact ih (aligned.dropped drops)
      | false => exact ih (aligned.kept drops)

/-- A character that is left comes from one of the text, and what is left in front of it comes
from what stands in front of that one. -/
theorem exists_of_kept_eq_cons {zone : Zone} {l : Location} {text front back : Text} {c : Char}
    (left : zone.kept l text = front ++ c :: back) :
    ∃ front' back', text = front' ++ c :: back' ∧ zone.kept l front' = front ∧
      (zone.past l front').comments c = false := by
  induction text generalizing zone l front with
  | nil => simp [kept] at left
  | cons d text ih =>
      cases drops : zone.comments d with
      | true =>
          rw [kept, if_pos drops] at left
          obtain ⟨front', back', rfl, same, keeps⟩ := ih left
          exact ⟨d :: front', back', rfl, by rw [kept, if_pos drops, same], keeps⟩
      | false =>
          rw [kept, drops, if_neg Bool.false_ne_true] at left
          cases front with
          | nil =>
              obtain ⟨rfl, -⟩ := List.cons.inj left
              exact ⟨[], text, rfl, rfl, drops⟩
          | cons first front =>
              obtain ⟨rfl, tail⟩ := List.cons.inj left
              obtain ⟨front', back', rfl, same, keeps⟩ := ih tail
              refine ⟨d :: front', back', rfl, ?_, keeps⟩
              rw [kept, drops, if_neg Bool.false_ne_true, same]

/-! ### What is left has no comments -/

/-- The zone in what is left of a text, where comments leave no trace. -/
def uncommented : Zone → Zone
  | code => code
  | literal closer => literal closer
  | comment _ => code

theorem uncommented_ne_comment (zone : Zone) (start : Location) :
    zone.uncommented ≠ comment start := by
  cases zone <;> exact Zone.noConfusion

theorem uncommented_after_of_dropped {zone : Zone} {c : Char} (drops : zone.comments c = true)
    (l : Location) : (zone.after l c).uncommented = zone.uncommented := by
  cases zone with
  | code =>
      obtain rfl : c = '#' := by simpa [comments] using drops
      rfl
  | literal closer => cases drops
  | comment start =>
      have inLine : c ≠ '\n' := by simpa [comments] using drops
      rw [after, if_neg inLine]

/-- A character that is kept does to the zone of what is left what it does to the zone of the
text.  It is not taken for a comment there either. -/
theorem uncommented_after_of_kept {zone : Zone} {c : Char} (keeps : zone.comments c = false)
    (l k : Location) :
    (zone.after l c).uncommented = zone.uncommented.after k c ∧
      zone.uncommented.comments c = false := by
  cases zone with
  | code =>
      have notComment : c ≠ '#' := by simpa [comments] using keeps
      refine ⟨?_, keeps⟩
      rw [uncommented, after, after, if_neg notComment, if_neg notComment]
      split <;> rfl
  | literal closer =>
      refine ⟨?_, rfl⟩
      rw [uncommented, after, after]
      split <;> rfl
  | comment start =>
      obtain rfl : c = '\n' := by simpa [comments] using keeps
      exact ⟨rfl, rfl⟩

/-- What is left of a text is kept whole, and the zones in it are those in the text.  The
induction carries both zones, which differ only inside comments. -/
theorem kept_kept (zone : Zone) (l k : Location) (text : Text) :
    zone.uncommented.kept k (zone.kept l text) = zone.kept l text ∧
      zone.uncommented.past k (zone.kept l text) = (zone.past l text).uncommented := by
  induction text generalizing zone l k with
  | nil => exact ⟨rfl, rfl⟩
  | cons c text ih =>
      cases drops : zone.comments c with
      | true =>
          rw [kept, if_pos drops, past, ← uncommented_after_of_dropped drops l]
          exact ih (zone.after l c) (l.after c) k
      | false =>
          obtain ⟨next, keeps⟩ := uncommented_after_of_kept drops l k
          obtain ⟨rest, behind⟩ := ih (zone.after l c) (l.after c) (k.after c)
          rw [kept, drops, if_neg Bool.false_ne_true, kept, keeps, past, past, ← next, rest, behind]
          exact ⟨rfl, rfl⟩

end Zone

/-! ### Texts -/

namespace Comment

theorem outside_append_iff {before front : Text} :
    Outside (before ++ front) ↔
      (Zone.code.past .start before).past (Location.start.past before) front = .code := by
  rw [Outside, tracked_iff, Zone.past_append]
  rfl

/-- What is left of a line is cut off in front of its first `#` outside.  Whether a `#` is outside
depends on the text from its start, not on the line alone. -/
theorem cutBefore_kept {before line : Text} (inLine : '\n' ∉ line)
    (closed : ∀ start, Zone.code.past .start before ≠ .comment start) :
    CutBefore before line
      ((Zone.code.past .start before).kept (Location.start.past before) line) := by
  rcases tracked_or_open before with ⟨due, -, zone⟩ | ⟨_, _, _, _, _, inside⟩
  · obtain ⟨free, cut⟩ := Zone.kept_line_cases inLine due (Location.start.past before)
    unfold CutBefore
    simp only [outside_append_iff, zone]
    exact ⟨free, cut⟩
  · exact absurd inside (closed _)

/-- Behind a text that does not end in a comment the places in the text and in what is left of
it are the same. -/
theorem past_kept_of_tracked {front : Text} {due : Option Char} (tracked : Tracked front due) :
    Location.start.past (Zone.code.kept .start front) = Location.start.past front := by
  have aligned : Zone.code.Aligned Location.start Location.start := rfl
  have behind := aligned.past front
  rw [past_of_tracked tracked] at behind
  cases due <;> exact behind.symm

/-- What lands at a place is found there in what is left: the text in front of it is what is left
of the text in front of the character. -/
theorem Lands.exists_kept_eq {text : Text} {c : Char} {l k : Location} (lands : Lands text c l k) :
    ∃ front rest, Zone.code.kept .start text = front ++ c :: rest ∧
      Location.start.past front = k := by
  cases lands with
  | @stays front back due c split tracked code =>
      obtain ⟨next, keeps⟩ := Zone.after_ofDue code (Location.start.past front)
      refine ⟨Zone.code.kept .start front, ?_, ?_, past_kept_of_tracked tracked⟩
      · exact (Zone.ofDue (closerAfter due c)).kept ((Location.start.past front).after c) back
      · rw [split, Zone.kept_append, past_of_tracked tracked, Zone.kept, keeps, next]
        rfl
  | @ends front note back split outside inLine =>
      have whole : text = front ++ ('#' :: (note ++ ['\n']) ++ back) := by
        rw [split]
        simp
      obtain ⟨behind, keeps⟩ := Zone.code_comment inLine (Location.start.past front)
      refine ⟨Zone.code.kept .start front, ?_, ?_, past_kept_of_tracked outside⟩
      · exact Zone.code.kept ((Location.start.past front).past ('#' :: (note ++ ['\n']))) back
      · rw [whole, Zone.kept_append, past_of_tracked outside, Zone.kept_append]
        show _ ++ (Zone.code.kept _ _ ++ (Zone.code.past _ _).kept _ _) = _
        rw [behind, keeps]
        rfl

/-- What is found in what is left has landed there.  The text in front of it ends outside
comments, and then it has not moved; or it ends in a comment, and then only the newline that
ends the comment is left. -/
theorem exists_lands_of_kept_eq {text front rest : Text} {c : Char}
    (left : Zone.code.kept .start text = front ++ c :: rest) :
    ∃ l, Lands text c l (Location.start.past front) := by
  obtain ⟨before, back, split, rfl, keeps⟩ := Zone.exists_of_kept_eq_cons left
  rcases tracked_or_open before with
    ⟨due, tracked, zone⟩ | ⟨before, note, rfl, outside, inLine, zone⟩
  · have code : due = none → c ≠ '#' := by
      rintro rfl rfl
      rw [zone] at keeps
      cases keeps
    rw [past_kept_of_tracked tracked]
    exact ⟨_, .stays split tracked code⟩
  · obtain rfl : c = '\n' := by
      rw [zone] at keeps
      simpa [Zone.comments] using keeps
    have dropped : Zone.code.kept (Location.start.past before) ('#' :: note) = [] :=
      (Zone.comment_inside inLine _ _).2
    have place : Location.start.past (Zone.code.kept .start (before ++ '#' :: note)) =
        Location.start.past before := by
      rw [Zone.kept_append, past_of_tracked outside, Zone.ofDue, dropped, List.append_nil]
      exact past_kept_of_tracked outside
    rw [place]
    exact ⟨_, .ends (by rw [split, List.append_assoc]; rfl) outside inLine⟩

end Comment

open Comment (Outside CutBefore Lands)

/-- Leaving comments out fails in one way only: the text ends in a comment, and the place of its
`#` is reported. -/
theorem uncomment_eq_error_iff {text : Text} {d : Diagnostic} :
    uncomment text = .error d ↔
      ∃ front note, text = front ++ '#' :: note ∧ Outside front ∧ '\n' ∉ note ∧
        d = .endOfInput .preprocessing (Location.start.past front) := by
  constructor
  · intro refused
    rcases Comment.tracked_or_open text with
      ⟨due, -, zone⟩ | ⟨front, note, split, outside, inLine, inside⟩
    · have accepted : uncomment text = .ok (Zone.code.kept .start text) := by
        refine uncommentFrom_eq_ok fun start => ?_
        rw [zone]
        exact Zone.ofDue_ne_comment due start
      cases refused.symm.trans accepted
    · cases refused.symm.trans (uncommentFrom_eq_error inside)
      exact ⟨front, note, split, outside, inLine, rfl⟩
  · rintro ⟨front, note, rfl, outside, inLine, rfl⟩
    apply uncommentFrom_eq_error
    rw [Zone.past_append, Comment.past_of_tracked outside]
    exact Zone.code_openComment inLine _

/-- The lines that are left are the lines of the text, each cut in front of its first `#` outside.
None is missing, and none is added. -/
theorem cutBefore_of_uncomment {text left : Text} (accepted : uncomment text = .ok left) {i : Nat}
    {line : Text} (found : text.lines[i]? = some line) :
    ∃ code, left.lines[i]? = some code ∧ CutBefore (text.beforeLine i) line code := by
  have closed := Zone.past_beforeLine_ne_comment .code .start text i (fun _ => Zone.noConfusion)
  have inLine := Text.notMem_of_mem_splitOn (List.mem_of_getElem? found)
  refine ⟨_, ?_, Comment.cutBefore_kept inLine closed⟩
  rw [← kept_of_uncommentFrom accepted, Zone.lines_kept, Zone.getElem?_keptLines, found]
  rfl

/-- What stands at a place of the text that is left has landed there, on the line on which it
stood. -/
theorem atLocation?_uncomment_iff {text left : Text} (accepted : uncomment text = .ok left)
    {c : Char} {k : Location} :
    (∃ rest, left.atLocation? k = some (c :: rest)) ↔ ∃ l, l.line = k.line ∧ Lands text c l k := by
  obtain rfl := kept_of_uncommentFrom accepted
  constructor
  · rintro ⟨rest, place⟩
    obtain ⟨front, split, rfl⟩ := Text.atLocation?_eq_some_iff.mp place
    obtain ⟨l, lands⟩ := Comment.exists_lands_of_kept_eq split
    exact ⟨l, lands.line_eq, lands⟩
  · rintro ⟨l, -, lands⟩
    obtain ⟨front, rest, split, place⟩ := lands.exists_kept_eq
    exact ⟨rest, Text.atLocation?_eq_some_iff.mpr ⟨front, split, place⟩⟩

/-- Nothing is left out a second time.  What was in a literal is so still, and there is no comment
any more. -/
theorem uncomment_of_uncomment {text left : Text} (accepted : uncomment text = .ok left) :
    uncomment left = .ok left := by
  obtain rfl := kept_of_uncommentFrom accepted
  obtain ⟨again, zone⟩ := Zone.kept_kept .code .start .start text
  have closed : ∀ start, Zone.code.past .start (Zone.code.kept .start text) ≠ .comment start := by
    intro start
    rw [show Zone.code.past _ _ = _ from zone]
    exact Zone.uncommented_ne_comment _ start
  have unchanged := uncommentFrom_eq_ok closed
  rw [show Zone.code.kept _ (Zone.code.kept _ text) = _ from again] at unchanged
  exact unchanged

/-- **Leaving comments out takes exactly the comments.**  A text is refused exactly if a `#`
outside brackets and strings has no newline behind it, as ending in the comment that begins at
that `#`.  Else as many lines are left as the text has.  Each is the line of the text, cut in
front of its first `#` outside if there is one.  So what is left stands on its line, and it
stands in its column, except for a newline that ends a comment, which moves to the column of the
`#`.  What is left is left unchanged a second time. -/
theorem uncomment_exact (text : Text) :
    (∀ d, uncomment text = .error d ↔
      ∃ front note, text = front ++ '#' :: note ∧ Outside front ∧ '\n' ∉ note ∧
        d = .endOfInput .preprocessing (Location.start.past front)) ∧
      ∀ left, uncomment text = .ok left →
        left.lines.length = text.lines.length ∧
          (∀ i line, text.lines[i]? = some line →
            ∃ code, left.lines[i]? = some code ∧ CutBefore (text.beforeLine i) line code) ∧
          (∀ c k, (∃ rest, left.atLocation? k = some (c :: rest)) ↔
            ∃ l, l.line = k.line ∧ Lands text c l k) ∧
          uncomment left = .ok left := by
  refine ⟨fun d => uncomment_eq_error_iff, ?_⟩
  intro left accepted
  refine ⟨?_, ?_, ?_, uncomment_of_uncomment accepted⟩
  · rw [← kept_of_uncommentFrom accepted, Zone.lines_kept, Zone.length_keptLines]
  · intro i line found
    exact cutBefore_of_uncomment accepted found
  · intro c k
    exact atLocation?_uncomment_iff accepted

/-- The newline behind a comment does not keep its column: here it comes from the fourth column
to the second, where the `#` stood. -/
theorem newline_moves_behind_comment :
    let text : Text := ['A', '#', 'b', '\n']
    let left : Text := ['A', '\n']
    uncomment text = .ok left ∧ text.atLocation? ⟨1, 4⟩ = some ['\n'] ∧
      left.atLocation? ⟨1, 2⟩ = some ['\n'] ∧
      ¬ ∀ k c rest, left.atLocation? k = some (c :: rest) →
        ∃ rest', text.atLocation? k = some (c :: rest') := by
  refine ⟨rfl, rfl, rfl, fun keeps => ?_⟩
  obtain ⟨rest', found⟩ := keeps ⟨1, 2⟩ '\n' [] rfl
  cases found

end Pizzeria
