import Pizzeria.Program
import Pizzeria.Proofs.Location
import Pizzeria.Proofs.Outcome

/-!
# Comments are left out and nothing else

Leaving comments out is one pass over the text that carries a zone along.  What the
pass keeps of a beginning of the text, and the zone behind it, do not depend on what
follows; so texts that leave the pass outside literals and comments can be treated
one after the other.

A dropped character never ends its line.  Hence what is kept of the text stands on the
lines that it had before, and what is kept of a line in the columns that it had.  The
newline behind a comment is all that moves within its line.

## Main Definitions

* `Zone.past` — the zone behind a text.
* `Zone.kept` — what is left of a text.

## Main Results

* `uncommentFrom_append` — a text is treated after its beginning.
* `uncomment_closeLine` — a text that ends its last line is never refused.
* `Zone.exists_of_kept_eq` — what is kept of one line stands where it stood.
-/

namespace Pizzeria

namespace Zone

/-- The zone behind a text at `l`. -/
def past (zone : Zone) (l : Location) : Text → Zone
  | [] => zone
  | c :: cs => (zone.after l c).past (l.after c) cs

/-- What is left of a text at `l` without its comments. -/
def kept (zone : Zone) (l : Location) : Text → Text
  | [] => []
  | c :: cs =>
      if zone.comments c then (zone.after l c).kept (l.after c) cs
      else c :: (zone.after l c).kept (l.after c) cs

/-- The zone behind two texts is reached by way of the zone behind the first. -/
theorem past_append (zone : Zone) (l : Location) (t u : Text) :
    zone.past l (t ++ u) = (zone.past l t).past (l.past t) u := by
  induction t generalizing zone l with
  | nil => rfl
  | cons c t ih => exact ih (zone.after l c) (l.after c)

/-- What is left of two texts is what is left of each, the second from the zone behind the
first. -/
theorem kept_append (zone : Zone) (l : Location) (t u : Text) :
    zone.kept l (t ++ u) = zone.kept l t ++ (zone.past l t).kept (l.past t) u := by
  induction t generalizing zone l with
  | nil => rfl
  | cons c t ih =>
      rw [List.cons_append, kept, kept, ih]
      split <;> rfl

/-! ### Zones behind the parts of a program -/

/-- Outside literals and comments, text that begins neither is kept, and leads nowhere else. -/
theorem code_plain {w : Text} (plain : ∀ c ∈ w, c ≠ '#' ∧ bracket? c = none) (l : Location) :
    code.past l w = code ∧ code.kept l w = w := by
  induction w generalizing l with
  | nil => exact ⟨rfl, rfl⟩
  | cons c w ih =>
      obtain ⟨notComment, notLiteral⟩ := plain c List.mem_cons_self
      have stays : code.after l c = code := by simp [after, notComment, notLiteral]
      have keeps : code.comments c = false := by simp [comments, notComment]
      obtain ⟨behind, rest⟩ := ih (fun d mem => plain d (List.mem_cons_of_mem c mem)) (l.after c)
      rw [past, kept, stays, keeps, behind, rest]
      exact ⟨rfl, rfl⟩

/-- A literal runs on until its closer and is kept.  A `#` in it begins no comment. -/
theorem literal_inside {closer : Char} {body : Text} (inside : closer ∉ body) (l : Location) :
    (literal closer).past l body = literal closer ∧ (literal closer).kept l body = body := by
  induction body generalizing l with
  | nil => exact ⟨rfl, rfl⟩
  | cons c body ih =>
      rw [List.mem_cons, not_or] at inside
      have stays : (literal closer).after l c = literal closer := by
        simp [after, Ne.symm inside.1]
      obtain ⟨behind, rest⟩ := ih inside.2 (l.after c)
      rw [past, kept, stays, behind, rest]
      exact ⟨rfl, rfl⟩

/-- A comment runs on until the end of its line and is dropped.  An opener in it begins no
literal. -/
theorem comment_inside {note : Text} (inside : '\n' ∉ note) (start l : Location) :
    (comment start).past l note = comment start ∧ (comment start).kept l note = [] := by
  induction note generalizing l with
  | nil => exact ⟨rfl, rfl⟩
  | cons c note ih =>
      rw [List.mem_cons, not_or] at inside
      have stays : (comment start).after l c = comment start := by
        simp [after, Ne.symm inside.1]
      have drops : (comment start).comments c = true := by
        simp [comments, Ne.symm inside.1]
      obtain ⟨behind, rest⟩ := ih inside.2 (l.after c)
      rw [past, kept, stays, drops, behind, rest]
      exact ⟨rfl, rfl⟩

theorem after_opener {opener closer : Char} {kind : Token.Kind}
    (opens : bracket? opener = some (closer, kind)) (l : Location) :
    code.after l opener = literal closer ∧ code.comments opener = false := by
  have notComment : opener ≠ '#' := by
    rintro rfl
    cases opens
  simp [after, comments, notComment, opens]

/-- A complete literal leads back outside, and all of it is kept.  It may go over several
lines. -/
theorem code_literal {opener closer : Char} {kind : Token.Kind} {body : Text}
    (opens : bracket? opener = some (closer, kind)) (inside : closer ∉ body) (l : Location) :
    code.past l (opener :: (body ++ [closer])) = code ∧
      code.kept l (opener :: (body ++ [closer])) = opener :: (body ++ [closer]) := by
  obtain ⟨enters, keeps⟩ := after_opener opens l
  obtain ⟨behind, rest⟩ := literal_inside inside (l.after opener)
  rw [past, kept, enters, keeps, past_append, kept_append, behind, rest]
  simp [past, kept, after, comments]

/-- A complete comment leads back outside, and only its newline is kept.  The newline is what
separates the words on both sides. -/
theorem code_comment {note : Text} (inside : '\n' ∉ note) (l : Location) :
    code.past l ('#' :: (note ++ ['\n'])) = code ∧
      code.kept l ('#' :: (note ++ ['\n'])) = ['\n'] := by
  obtain ⟨behind, rest⟩ := comment_inside inside l (l.after '#')
  have enters : code.after l '#' = comment l := rfl
  have drops : code.comments '#' = true := rfl
  rw [past, kept, enters, drops, past_append, kept_append, behind, rest]
  simp [past, kept, after, comments]

theorem code_openComment {note : Text} (inside : '\n' ∉ note) (l : Location) :
    code.past l ('#' :: note) = comment l :=
  (comment_inside inside l (l.after '#')).1

/-- A literal that is not closed is kept to the end of the text.  The fault is left to those who
cut lexemes. -/
theorem code_openLiteral {opener closer : Char} {kind : Token.Kind} {body : Text}
    (opens : bracket? opener = some (closer, kind)) (inside : closer ∉ body) (l : Location) :
    code.past l (opener :: body) = literal closer ∧
      code.kept l (opener :: body) = opener :: body := by
  obtain ⟨enters, keeps⟩ := after_opener opens l
  obtain ⟨behind, rest⟩ := literal_inside inside (l.after opener)
  rw [past, kept, enters, keeps, behind, rest]
  exact ⟨rfl, rfl⟩

/-- Behind a newline there is no comment, whatever zone the line began in. -/
theorem past_line_ne_comment (zone : Zone) (l : Location) (t : Text) (start : Location) :
    zone.past l (t ++ ['\n']) ≠ comment start := by
  rw [past_append, past, past]
  cases zone.past l t with
  | code => simp [after, bracket?]
  | literal closer =>
      rw [after]
      split <;> simp
  | comment _ => simp [after]

/-- The end of a line is kept, in whatever zone it stands.  So the number of lines is not
changed. -/
theorem kept_line (zone : Zone) (l : Location) (t : Text) :
    zone.kept l (t ++ ['\n']) = zone.kept l t ++ ['\n'] := by
  rw [kept_append]
  cases zone.past l t <;> simp [kept, comments]

/-! ### Lines and columns are kept -/

/-- The place `l` in a text answers to the place `k` in what is kept of it.  Inside a
comment the column has run ahead. -/
def Aligned (l k : Location) : Zone → Prop
  | comment _ => l.line = k.line
  | _ => l = k

/-- A dropped character leaves the place in the kept text alone.  Only the column of the source
moves, since the newline is not dropped. -/
theorem Aligned.dropped {zone : Zone} {l k : Location} {c : Char}
    (aligned : zone.Aligned l k) (drops : zone.comments c = true) :
    (zone.after l c).Aligned (l.after c) k := by
  cases zone with
  | code =>
      obtain rfl : c = '#' := by simpa [comments] using drops
      show (l.after '#').line = k.line
      rw [Location.after_of_ne (by decide), show l = k from aligned]
  | literal closer => cases drops
  | comment start =>
      have inLine : c ≠ '\n' := by simpa [comments] using drops
      rw [after, if_neg inLine, Location.after_of_ne inLine]
      exact aligned

/-- A kept character moves both places, and the newline behind a comment brings
them together again. -/
theorem Aligned.kept {zone : Zone} {l k : Location} {c : Char}
    (aligned : zone.Aligned l k) (keeps : zone.comments c = false) :
    (zone.after l c).Aligned (l.after c) (k.after c) := by
  have apart (start : Location) : zone.after l c ≠ comment start := by
    cases zone with
    | code =>
        have notComment : c ≠ '#' := by simpa [comments] using keeps
        rw [after, if_neg notComment]
        split <;> simp
    | literal closer =>
        rw [after]
        split <;> simp
    | comment _ =>
        obtain rfl : c = '\n' := by simpa [comments] using keeps
        simp [after]
  have same : l.after c = k.after c := by
    cases zone with
    | code => exact congrArg (Location.after · c) aligned
    | literal closer => exact congrArg (Location.after · c) aligned
    | comment _ =>
        obtain rfl : c = '\n' := by simpa [comments] using keeps
        rw [Location.after_newline, Location.after_newline, show l.line = k.line from aligned]
  cases behind : zone.after l c with
  | code => exact same
  | literal closer => exact same
  | comment start => exact absurd behind (apart start)

/-- Where a character other than a newline is kept, the two places are one.  Behind a comment
comes its newline, and behind that both are in the first column. -/
theorem Aligned.eq_of_ne_newline {zone : Zone} {l k : Location} {c : Char}
    (aligned : zone.Aligned l k) (keeps : zone.comments c = false) (inLine : c ≠ '\n') :
    l = k := by
  cases zone with
  | code => exact aligned
  | literal closer => exact aligned
  | comment start => simp [comments, inLine] at keeps

/-- What is kept of one line stands in the text as it does in what is left of it, at
the same location. -/
theorem exists_of_kept_eq {zone : Zone} {l k : Location} (aligned : zone.Aligned l k)
    {source front run back : Text} (left : zone.kept l source = front ++ (run ++ back))
    (nonempty : run ≠ []) (inLine : '\n' ∉ run) :
    ∃ front' back', source = front' ++ (run ++ back') ∧ l.past front' = k.past front := by
  induction source generalizing zone l k front run with
  | nil =>
      have empty := List.append_eq_nil_iff.mp left.symm
      exact absurd (List.append_eq_nil_iff.mp empty.2).1 nonempty
  | cons c source ih =>
      cases drops : zone.comments c with
      | true =>
          rw [Zone.kept, if_pos drops] at left
          obtain ⟨front', back', split, place⟩ :=
            ih (aligned.dropped drops) left nonempty inLine
          exact ⟨c :: front', back', by rw [split, List.cons_append], place⟩
      | false =>
          rw [Zone.kept, drops, if_neg Bool.false_ne_true] at left
          have advanced := aligned.kept drops
          cases front with
          | cons first front =>
              obtain ⟨rfl, tail⟩ := List.cons.inj left
              obtain ⟨front', back', split, place⟩ := ih advanced tail nonempty inLine
              exact ⟨c :: front', back', by rw [split, List.cons_append], place⟩
          | nil =>
              obtain ⟨first, run, rfl⟩ := List.exists_cons_of_ne_nil nonempty
              obtain ⟨rfl, tail⟩ := List.cons.inj left
              rw [List.mem_cons, not_or] at inLine
              have together := aligned.eq_of_ne_newline drops (Ne.symm inLine.1)
              subst together
              by_cases last : run = []
              · subst last
                exact ⟨[], source, rfl, rfl⟩
              -- The rest of the run begins where the two places are, so nothing was
              -- dropped in front of it.
              · have whole : (zone.after l c).kept (l.after c) source = [] ++ (run ++ back) := tail
                obtain ⟨front', back', split, place⟩ := ih advanced whole last inLine.2
                obtain rfl : front' = [] := by
                  by_contra gap
                  exact Location.past_ne_self gap _ place
                exact ⟨[], back', by rw [split]; rfl, rfl⟩

/-- The beginning of what is kept, as far as it is on one line, is the beginning of
the text if the text begins outside comments. -/
theorem exists_of_kept_code_eq {l : Location} {source run back : Text}
    (left : code.kept l source = run ++ back) (nonempty : run ≠ []) (inLine : '\n' ∉ run) :
    ∃ back', source = run ++ back' := by
  have aligned : code.Aligned l l := rfl
  obtain ⟨front, back', split, place⟩ :=
    exists_of_kept_eq aligned (show code.kept l source = [] ++ (run ++ back) from left)
      nonempty inLine
  obtain rfl : front = [] := by
    by_contra gap
    exact Location.past_ne_self gap _ place
  exact ⟨back', split⟩

end Zone

/-! ### The text without comments -/

/-- Comments are left out of a text as if its beginning stood alone, and out of the
rest from the zone on that the beginning leads to. -/
theorem uncommentFrom_append (zone : Zone) (l : Location) (t u : Text) :
    uncommentFrom zone l (t ++ u) =
      (uncommentFrom (zone.past l t) (l.past t) u).map (zone.kept l t ++ ·) := by
  induction t generalizing zone l with
  | nil =>
      rw [List.nil_append, Zone.past, Zone.kept, Location.past_nil]
      cases uncommentFrom zone l u <;> rfl
  | cons c t ih =>
      rw [List.cons_append, uncommentFrom, ih, Zone.past, Zone.kept, Location.past_cons]
      cases uncommentFrom ((zone.after l c).past (l.after c) t) ((l.after c).past t) u with
      | error d => rfl
      | ok rest =>
          cases zone.comments c <;> rfl

/-- A text that does not end in a comment is accepted, with what is left of it. -/
theorem uncommentFrom_eq_ok {zone : Zone} {l : Location} {t : Text}
    (closed : ∀ start, zone.past l t ≠ .comment start) :
    uncommentFrom zone l t = .ok (zone.kept l t) := by
  have whole := uncommentFrom_append zone l t []
  rw [List.append_nil] at whole
  rw [whole]
  cases behind : zone.past l t with
  | comment start => exact absurd behind (closed start)
  | code => simp [uncommentFrom, Except.map]
  | literal closer => simp [uncommentFrom, Except.map]

/-- A text that ends in a comment is refused at the place where the comment began. -/
theorem uncommentFrom_eq_error {zone : Zone} {l start : Location} {t : Text}
    (behind : zone.past l t = .comment start) :
    uncommentFrom zone l t = .error (.endOfInput .preprocessing start) := by
  have whole := uncommentFrom_append zone l t []
  rw [List.append_nil] at whole
  rw [whole, behind]
  rfl

/-- Whatever is returned is what the zones keep.  From here on the proofs go by zones. -/
theorem kept_of_uncommentFrom {zone : Zone} {l : Location} {t code : Text}
    (left : uncommentFrom zone l t = .ok code) : zone.kept l t = code := by
  have closed : ∀ start, zone.past l t ≠ .comment start := by
    intro start behind
    rw [uncommentFrom_eq_error behind] at left
    cases left
  rw [uncommentFrom_eq_ok closed] at left
  exact Except.ok.inj left

theorem exists_closeLine (source : Text) : ∃ t, Program.closeLine source = t ++ ['\n'] := by
  unfold Program.closeLine
  split
  · rename_i ended
    obtain ⟨t, rfl⟩ := List.getLast?_eq_some_iff.mp ended
    exact ⟨t, rfl⟩
  · exact ⟨source, rfl⟩

/-- A text that ends its last line keeps no comment open, so it is not refused.  Reading always
ends the last line first. -/
theorem uncomment_closeLine (source : Text) :
    uncomment (Program.closeLine source) =
      .ok (Zone.code.kept .start (Program.closeLine source)) := by
  obtain ⟨t, closed⟩ := exists_closeLine source
  rw [closed]
  exact uncommentFrom_eq_ok (Zone.past_line_ne_comment .code .start t)

end Pizzeria
