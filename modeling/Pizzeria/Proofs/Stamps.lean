import Pizzeria.Proofs.ClauseGrammar
import Pizzeria.Proofs.CommentLines
import Pizzeria.Proofs.Retention
import Pizzeria.Proofs.Searches

/-!
# The passes by offsets

Leaving comments out, cutting lexemes and cutting the clauses of a literal can be done by a
reader that only notes offsets and slices its text between them.  Such a pass has no answer if
a slice does not exist.  Every slice does: an offset that was noted is one that the reader had,
and it has moved on since.  So the three passes always answer, and they answer what `uncomment`,
`Lexeme.scan` and `Pizza.clauses` do.

## Main Definitions

* `Reader.uncommentFrom?`, `Reader.lexemesFrom?`, `Reader.clausesFrom?` — the three passes;
  `none` stands for a slice that does not exist.

## Main Results

* `Reader.uncommentFrom?_eq`, `Reader.lexemesFrom?_eq`, `Reader.clausesFrom?_eq` — what a pass
  answers from any place that it can come to.
* `Reader.within_bounds` — readers stay between characters, and no slice of a pass fails.
-/

namespace Pizzeria

namespace Reader

/-! ### Searches -/

/-- The reader on the next match, or the fault of a search without one. -/
def found (p : Char → Bool) (r : Reader) : Except Diagnostic Reader :=
  (r.seek p).1.map fun _ => (r.seek p).2

theorem eq_of_found {p : Char → Bool} {r e : Reader} (found : r.found p = .ok e) :
    e = (r.seek p).2 := by
  obtain ⟨_, _, same⟩ := Except.map_eq_ok_iff.mp found
  exact same.symm

/-- What is found lies ahead, so searching never goes back. -/
theorem continues_of_found {p : Char → Bool} {r e : Reader} (found : r.found p = .ok e) :
    r.Continues e := by
  obtain rfl := eq_of_found found
  exact Call.continues_perform r (.seek p)

/-- A search passes at least one character, unless there is none.  The loops of the readers end
because of this. -/
theorem length_rest_found_lt {p : Char → Bool} {r e : Reader} (nonempty : r.cursor.rest ≠ [])
    (found : r.found p = .ok e) : e.cursor.rest.length < r.cursor.rest.length := by
  obtain rfl := eq_of_found found
  exact Cursor.length_rest_seek_lt p nonempty

/-- A search stops in front of the first match behind the first character, as it does for a
cursor. -/
theorem found_of_first {p : Char → Bool} {r : Reader} {first stop : Char} {w rest : Text}
    (h : r.cursor.rest = first :: (w ++ stop :: rest)) (inside : ∀ d ∈ w, p d = false)
    (stops : p stop = true) :
    r.found p = .ok { r with cursor := r.cursor.drop (first :: w).length } := by
  rw [found, seek_of_first h inside stops]
  rfl

/-- Without a match the reader reports the end of the input, under its own stage. -/
theorem found_of_none {p : Char → Bool} {r : Reader} {first : Char} {w : Text}
    (h : r.cursor.rest = first :: w) (inside : ∀ d ∈ w, p d = false) :
    r.found p = .error (.endOfInput r.stage r.cursor.location) := by
  have misses : ∀ d ∈ r.cursor.rest.tail, p d = false := by
    rw [h]
    exact inside
  rw [found, seek_of_none misses]
  rfl

/-! ### Comments -/

@[simp] theorem cursor_cut (r : Reader) (start stop : Nat) :
    (r.cut start stop).cursor = r.cursor := by
  unfold cut
  split <;> rfl

/-- Goes through the rest of the text, records each comment from its `#` up to the end of its
line, and in the end leaves what was recorded out.  `due` is the closer that is due. -/
def uncommentFrom? (due : Option Char) (r : Reader) : Option (Except Diagnostic Text) :=
  match hc : r.cursor.rest with
  | [] => r.retained?.map .ok
  | c :: _ =>
      have nonempty : r.cursor.rest ≠ [] := by simp [hc]
      if due = none ∧ c = '#' then
        match hf : r.found (· == '\n') with
        | .error d => some (.error d)
        | .ok e =>
            have := length_rest_found_lt nonempty hf
            (e.cut r.cursor.offset e.cursor.offset).step.uncommentFrom? none
      else
        have := Cursor.length_rest_step_lt nonempty
        r.step.uncommentFrom? (closerAfter due c)
termination_by r.cursor.rest.length
decreasing_by
  · simp only [step, cursor_cut, Cursor.rest_step, List.length_drop]
    omega
  · exact this

/-- The reader stands behind `front`, and what it has recorded leaves `left` of it. -/
structure Recorded (front left : Text) (r : Reader) : Prop where
  behind : r.cursor.Behind r.text front
  stage : r.stage = .preprocessing
  fits : ∀ span ∈ r.cuts, span.Fits r.text
  passed : ∀ span ∈ r.cuts, span.stop ≤ front.byteLength
  outside_eq : Text.outside r.cuts 0 front = left

/-- What is read and not recorded stays in what is left of the text. -/
theorem Recorded.drop {front left : Text} {r : Reader} (recorded : r.Recorded front left)
    (n : Nat) :
    Recorded (front ++ r.cursor.rest.take n) (left ++ r.cursor.rest.take n)
      { r with cursor := r.cursor.drop n } where
  behind := recorded.behind.drop n
  stage := recorded.stage
  fits := recorded.fits
  passed span mem := by
    have passed := recorded.passed span mem
    rw [Text.byteLength_append]
    omega
  outside_eq := by rw [Text.outside_append_of_le recorded.passed, recorded.outside_eq]

/-- What is read and recorded does not: it is taken out, by the offsets that were noted at its
ends. -/
theorem Recorded.hide {front left note rest : Text} {r : Reader}
    (recorded : r.Recorded front left) (h : r.cursor.rest = note ++ rest) (nonempty : note ≠ []) :
    let e : Reader := { r with cursor := r.cursor.drop note.length }
    (e.cut r.cursor.offset e.cursor.offset).Recorded (front ++ note) left := by
  intro e
  have start := recorded.behind.offset_eq
  have moved : e.Recorded (front ++ note) (left ++ note) := by
    have moved := recorded.drop note.length
    rwa [h, List.take_left] at moved
  have stop := moved.behind.offset_eq
  have proper : front.byteLength < (front ++ note).byteLength := by
    have positive := mt Text.byteLength_eq_zero_iff.mp nonempty
    rw [Text.byteLength_append]
    omega
  rw [start, stop, cut, if_pos proper]
  have boundary : r.text.IsBoundary front.byteLength := ⟨front, _, recorded.behind.text_eq, rfl⟩
  have boundary' : r.text.IsBoundary (front ++ note).byteLength :=
    ⟨front ++ note, _, moved.behind.text_eq, rfl⟩
  exact {
    behind := moved.behind
    stage := moved.stage
    fits := List.forall_mem_append.mpr
      ⟨recorded.fits, List.forall_mem_singleton.mpr ⟨proper, boundary, boundary'⟩⟩
    passed := List.forall_mem_append.mpr
      ⟨moved.passed, List.forall_mem_singleton.mpr (Nat.le_refl _)⟩
    outside_eq := by rw [Text.outside_concat_span, recorded.outside_eq] }

theorem Recorded.step {front left rest : Text} {r : Reader} {c : Char}
    (recorded : r.Recorded front left) (h : r.cursor.rest = c :: rest) :
    r.step.Recorded (front ++ [c]) (left ++ [c]) := by
  have stepped := recorded.drop 1
  rwa [h] at stepped

/-- Leaving comments out of two texts is leaving them out of the first, and then of the second
from where the first has led.  The reader does it piece by piece. -/
theorem map_uncommentFrom_append (left : Text) (zone : Zone) (l : Location) (t u : Text) :
    (uncommentFrom zone l (t ++ u)).map (left ++ ·) =
      (uncommentFrom (zone.past l t) (l.past t) u).map (left ++ zone.kept l t ++ ·) := by
  rw [uncommentFrom_append]
  cases uncommentFrom (zone.past l t) (l.past t) u <;> simp [Except.map]

/-- A comment ends with its line, or the text ends in it.  In the second case the place of its `#`
is what is reported. -/
theorem found_newline_cases {r : Reader} {first : Char} {tail : Text}
    (h : r.cursor.rest = first :: tail) :
    (∃ note rest, tail = note ++ '\n' :: rest ∧ '\n' ∉ note ∧
      r.found (· == '\n') =
        .ok { r with cursor := r.cursor.drop (first :: note).length }) ∨
      '\n' ∉ tail ∧
        r.found (· == '\n') = .error (.endOfInput r.stage r.cursor.location) := by
  have absent {t : Text} (inside : ∀ c ∈ t, (c == '\n') = false) : '\n' ∉ t :=
    fun mem => by simpa using inside _ mem
  rcases Lexeme.exists_first_or_none (· == '\n') tail with
    ⟨note, stop, rest, rfl, inside, stops⟩ | inside
  · obtain rfl : stop = '\n' := by simpa using stops
    exact Or.inl ⟨note, rest, rfl, absent inside, found_of_first h inside stops⟩
  · exact Or.inr ⟨absent inside, found_of_none h inside⟩

/-- From any place that it can come to, the pass answers what is left of the text without
comments. -/
theorem uncommentFrom?_eq {front left : Text} {r : Reader} (recorded : r.Recorded front left)
    (due : Option Char) :
    r.uncommentFrom? due =
      some ((uncommentFrom (Zone.ofDue due) r.cursor.location r.cursor.rest).map (left ++ ·)) := by
  fun_induction uncommentFrom? due r generalizing front left with
  | case1 due r h =>
      have whole : r.text = front := by
        rw [recorded.behind.text_eq, h, List.append_nil]
      have ended : uncommentFrom (Zone.ofDue due) r.cursor.location [] = .ok [] := by
        cases due <;> rfl
      rw [h, ended, retained?, Text.retained?_eq recorded.fits, whole, recorded.outside_eq]
      simp [Except.map]
  | case2 due r c tail h nonempty hash d stuck =>
      obtain ⟨rfl, rfl⟩ := hash
      rcases found_newline_cases h with ⟨note, rest, -, -, found⟩ | ⟨inLine, missing⟩
      · cases found.symm.trans stuck
      · cases missing.symm.trans stuck
        rw [h, Zone.ofDue, uncommentFrom_eq_error (Zone.code_openComment inLine _),
          recorded.stage]
        rfl
  | case3 due r c tail h nonempty hash e found shorter ih =>
      obtain ⟨rfl, rfl⟩ := hash
      rcases found_newline_cases h with ⟨note, rest, rfl, inLine, found'⟩ | ⟨-, missing⟩
      · cases found'.symm.trans found
        have split : r.cursor.rest = ('#' :: note) ++ '\n' :: rest := h
        have whole : r.cursor.rest = '#' :: (note ++ ['\n']) ++ rest := by simp [h]
        have moved : (r.cursor.drop ('#' :: note).length).step =
            r.cursor.drop ('#' :: (note ++ ['\n'])).length := by
          simp [Cursor.step, Cursor.drop_drop]
        have hidden := recorded.hide split (List.cons_ne_nil _ _)
        have recorded := hidden.step ((congrArg Cursor.rest (cursor_cut ..)).trans
          (Cursor.rest_drop_length split))
        obtain ⟨behind, keeps⟩ := Zone.code_comment inLine r.cursor.location
        rw [ih recorded, step, cursor_cut, moved, Cursor.rest_drop_length whole,
          Cursor.location_drop_length whole, whole, map_uncommentFrom_append, Zone.ofDue, behind,
          keeps]
      · cases missing.symm.trans found
  | case4 due r c tail h nonempty plain shorter ih =>
      have whole : r.cursor.rest = [c] ++ tail := h
      have moved : r.step.cursor = r.cursor.drop [c].length := rfl
      obtain ⟨behind, keeps⟩ :=
        Zone.after_ofDue (fun none hash => plain ⟨none, hash⟩) r.cursor.location
      rw [ih (recorded.step h), moved, Cursor.rest_drop_length whole,
        Cursor.location_drop_length whole, whole, map_uncommentFrom_append, Zone.past, Zone.past,
        Zone.kept, Zone.kept, behind, keeps, if_neg Bool.false_ne_true]

/-! ### Lexemes -/

/-- The kind of the lexeme that begins with `first` in front of the reader, `none` if no lexeme
does, and the reader behind it. -/
def extent (first : Char) (r : Reader) : Except Diagnostic (Option Token.Kind × Reader) :=
  if isLetter first then (r.found endsWord).map (some .keyword, ·)
  else
    match bracket? first with
    | some (closer, kind) => (r.found (· == closer)).map fun e => (some kind, e.step)
    | none =>
        if first = ';' then .ok (some .delimiter, r.step)
        else (r.found endsWord).map (none, ·)

/-- A lexeme leads on, and leaves less to read.  Both are needed: offsets have to be in order, and
the loop has to end. -/
theorem continues_of_extent {first : Char} {r e : Reader} {kind : Option Token.Kind}
    (nonempty : r.cursor.rest ≠ []) (h : r.extent first = .ok (kind, e)) :
    r.Continues e ∧ e.cursor.rest.length < r.cursor.rest.length := by
  have stepped (d : Reader) : d.Continues d.step := Call.continues_perform d .step
  unfold extent at h
  split at h
  · obtain ⟨d, found, same⟩ := Except.map_eq_ok_iff.mp h
    cases same
    exact ⟨continues_of_found found, length_rest_found_lt nonempty found⟩
  · split at h
    · obtain ⟨d, found, same⟩ := Except.map_eq_ok_iff.mp h
      cases same
      have shorter := length_rest_found_lt nonempty found
      refine ⟨(continues_of_found found).trans (stepped d), ?_⟩
      rw [step, Cursor.rest_step, List.length_drop]
      omega
    · split at h
      · cases h
        exact ⟨stepped r, Cursor.length_rest_step_lt nonempty⟩
      · obtain ⟨d, found, same⟩ := Except.map_eq_ok_iff.mp h
        cases same
        exact ⟨continues_of_found found, length_rest_found_lt nonempty found⟩

/-- Cuts the rest of the text into lexemes, which begin where the reader stands.  The text of
each is sliced between the offsets in front of it and behind it. -/
def lexemesFrom? (r : Reader) : Option (Except Diagnostic (List Lexeme)) :=
  match hc : r.cursor.rest with
  | [] => some (.ok [])
  | first :: _ =>
      match he : r.extent first with
      | .error d => some (.error d)
      | .ok (kind, e) =>
          match e.slice? r.cursor.offset e.cursor.offset with
          | none => none
          | some text =>
              match kind with
              | none => some (.error (Lexeme.unrecognized r.cursor.location text))
              | some kind =>
                  have nonempty : r.cursor.rest ≠ [] := by simp [hc]
                  have := (continues_of_extent nonempty he).2
                  (e.skipWhile isSpace).lexemesFrom?.map
                    (Except.map (⟨kind, r.cursor.location, text⟩ :: ·))
termination_by r.cursor.rest.length
decreasing_by
  have shorter := (List.dropWhile_suffix (l := e.cursor.rest) isSpace).length_le
  simp only [skipWhile, Cursor.skipWhile]
  omega

/-- A reader finds the end of a lexeme where a cursor does, and fails where it does. -/
theorem boundary_eq {r : Reader} (stage : r.stage = .tokenization) (p : Char → Bool) :
    Lexeme.boundary p r.cursor = (r.found p).map Reader.cursor := by
  unfold Lexeme.boundary found seek
  dsimp only
  split
  · rw [stage]
    rfl
  · rfl

/-- A reader finds the lexemes that a cursor does.  The slices that it takes exist, since they lie
between offsets that it has passed. -/
theorem next_eq {r : Reader} (stage : r.stage = .tokenization) (first : Char) :
    Lexeme.next first r.cursor =
      (r.extent first).bind fun (kind, e) =>
        match kind with
        | some kind => .ok (⟨kind, r.cursor.location, r.cursor.upTo e.cursor⟩, e.cursor)
        | none =>
            .error (Lexeme.unrecognized r.cursor.location (r.cursor.upTo e.cursor)) := by
  unfold Lexeme.next Lexeme.extent extent
  simp only [boundary_eq stage]
  split
  · cases r.found endsWord <;> rfl
  · cases bracket? first with
    | some pair =>
        dsimp only
        cases r.found (· == pair.1) <;> rfl
    | none =>
        dsimp only
        split
        · rfl
        · cases r.found endsWord <;> rfl

theorem scanFrom_skipWhile (c : Cursor) :
    Lexeme.scanFrom (c.skipWhile isSpace) = Lexeme.scanFrom c := by
  obtain ⟨rest, offset, location⟩ := c
  induction rest generalizing offset location with
  | nil => rfl
  | cons first rest ih =>
      cases space : isSpace first with
      | true =>
          have skips : Cursor.skipWhile isSpace ⟨first :: rest, offset, location⟩ =
              (Cursor.step ⟨first :: rest, offset, location⟩).skipWhile isSpace :=
            Cursor.skipWhile_of_current rfl space
          have passes : Lexeme.scanFrom ⟨first :: rest, offset, location⟩ =
              Lexeme.scanFrom (Cursor.step ⟨first :: rest, offset, location⟩) :=
            Lexeme.scanFrom_of_space rfl space
          rw [skips, passes]
          exact ih _ _
      | false =>
          have stays : Cursor.skipWhile isSpace ⟨first :: rest, offset, location⟩ =
              ⟨first :: rest, offset, location⟩ :=
            Cursor.skipWhile_of_not_current fun _ next => Option.some.inj next ▸ space
          rw [stays]

/-- White space is skipped to its end, so a lexeme begins there or the text is over. -/
theorem isSpace_head_skipWhile (r : Reader) :
    ∀ c ∈ (r.skipWhile isSpace).cursor.rest.head?, isSpace c = false := by
  intro c mem
  have stops := List.head?_dropWhile_not isSpace r.cursor.rest
  rw [show (r.cursor.rest.dropWhile isSpace).head? = some c from mem] at stops
  exact stops

/-- From any place where no white space follows, the pass answers the lexemes of the rest of
the text. -/
theorem lexemesFrom?_eq {r : Reader} (sound : r.Sound) (stage : r.stage = .tokenization)
    (begins : ∀ c ∈ r.cursor.rest.head?, isSpace c = false) :
    r.lexemesFrom? = some (Lexeme.scanFrom r.cursor) := by
  fun_induction lexemesFrom? r with
  | case1 r h => rw [Lexeme.scanFrom_of_nil h]
  | case2 r first tail h d stuck =>
      have solid : isSpace first = false := begins first (by rw [h]; rfl)
      rw [Lexeme.scanFrom_of_next h solid, next_eq stage, stuck]
      rfl
  | case3 r first tail h kind e cut missing =>
      have on := (continues_of_extent (by simp [h]) cut).1
      cases missing.symm.trans (on.slice?_eq sound)
  | case4 r first tail h e text sliced cut =>
      have solid : isSpace first = false := begins first (by rw [h]; rfl)
      have on := (continues_of_extent (by simp [h]) cut).1
      cases sliced.symm.trans (on.slice?_eq sound)
      rw [Lexeme.scanFrom_of_next h solid, next_eq stage, cut]
      rfl
  | case5 r first tail h e text sliced kind cut nonempty shorter _ ih =>
      have solid : isSpace first = false := begins first (by rw [h]; rfl)
      have on := (continues_of_extent nonempty cut).1
      have skipped := on.trans (Call.continues_perform e (.skipWhile isSpace))
      cases sliced.symm.trans (on.slice?_eq sound)
      rw [ih (skipped.sound sound) (skipped.stage_eq.trans stage) (isSpace_head_skipWhile e),
        Lexeme.scanFrom_of_next h solid, next_eq stage, cut]
      show some _ = some ((Lexeme.scanFrom e.cursor).map _)
      rw [← scanFrom_skipWhile e.cursor]
      rfl

/-! ### Clauses -/

/-- Cuts the rest of a literal into clauses.  `mark` is the mark that is due, and `opened` the
offset of the last opening brace; a clause is sliced from there to behind its closing brace. -/
def clausesFrom? (mark : Char) (opened : Nat) (r : Reader) :
    Option (Except Pizza.Fault (List Text)) :=
  match hc : r.cursor.rest with
  | [] => some (if mark = ',' then .ok [] else .error (.unterminated mark))
  | c :: _ =>
      have nonempty : r.cursor.rest ≠ [] := by simp [hc]
      have := Cursor.length_rest_step_lt nonempty
      if c = mark then
        if mark = '{' then r.step.clausesFrom? '}' r.cursor.offset
        else if mark = '}' then
          match r.slice? opened r.cursor.nextOffset with
          | none => none
          | some clause => (r.step.clausesFrom? ',' opened).map (Except.map (clause :: ·))
        else r.step.clausesFrom? '{' opened
      else if isClauseMark c then some (.error (.mismatch mark c))
      else if mark ≠ '}' ∧ isSpace c = false then some (.error (.errant c))
      else r.step.clausesFrom? mark opened
termination_by r.cursor.rest.length

/-- At the end of a literal a comma may be due, and is not missed; a brace that is due is
reported. -/
theorem clausesFrom?_nil {mark : Char} {r : Reader} (h : r.cursor.rest = []) (opened : Nat) :
    r.clausesFrom? mark opened =
      some (if mark = ',' then .ok [] else .error (.unterminated mark)) := by
  rw [clausesFrom?]
  split
  · rfl
  · simp_all

theorem clausesFrom?_cons {mark c : Char} {tail : Text} {r : Reader}
    (h : r.cursor.rest = c :: tail) (opened : Nat) :
    r.clausesFrom? mark opened =
      if c = mark then
        if mark = '{' then r.step.clausesFrom? '}' r.cursor.offset
        else if mark = '}' then
          (r.slice? opened r.cursor.nextOffset).bind fun clause =>
            (r.step.clausesFrom? ',' opened).map (Except.map (clause :: ·))
        else r.step.clausesFrom? '{' opened
      else if isClauseMark c then some (.error (.mismatch mark c))
      else if mark ≠ '}' ∧ isSpace c = false then some (.error (.errant c))
      else r.step.clausesFrom? mark opened := by
  rw [clausesFrom?]
  split
  · simp_all
  · rename_i other _ same
    obtain ⟨rfl, -⟩ := List.cons.inj (h.symm.trans same)
    cases r.slice? opened r.cursor.nextOffset <;> rfl

/-- What was read since an offset, and the character behind it.  A clause is cut out with its
closing brace that way. -/
theorem slice?_nextOffset {before clause tail : Text} {c : Char} {r : Reader}
    (behind : r.cursor.Behind r.text (before ++ clause)) (h : r.cursor.rest = c :: tail) :
    r.slice? before.byteLength r.cursor.nextOffset = some (clause ++ [c]) := by
  refine Text.slice?_eq_some_iff.mpr ⟨before, tail, ?_, rfl, ?_⟩
  · rw [behind.text_eq, h]
    simp
  · rw [Cursor.nextOffset, h, behind.offset_eq, ← List.append_assoc, Text.byteLength_append]
    rfl

/-- If a clause is being read, it began at the offset `opened`. -/
def Opened (front : Text) (opened : Nat) : Pizza.Awaiting → Prop
  | .closing clause => ∃ before, front = before ++ clause ∧ before.byteLength = opened
  | .opening | .comma => True

/-- From any place that it can come to, the pass answers the clauses of the rest of the
literal. -/
theorem clausesFrom?_eq {front : Text} {r : Reader} (behind : r.cursor.Behind r.text front)
    {due : Pizza.Awaiting} {opened : Nat} (begun : Opened front opened due) :
    r.clausesFrom? due.mark opened = some (Pizza.clausesFrom due r.cursor.rest) := by
  induction h : r.cursor.rest generalizing r due front opened with
  | nil => cases due <;> rw [clausesFrom?_nil h] <;> rfl
  | cons c tail ih =>
      have stepped : r.step.cursor.Behind r.step.text (front ++ [c]) := by
        have stepped := behind.drop 1
        rwa [h] at stepped
      have onward (next : Pizza.Awaiting) (n : Nat) (begun : Opened (front ++ [c]) n next) :
          r.step.clausesFrom? next.mark n = some (Pizza.clausesFrom next tail) :=
        ih stepped begun (by simp [step, h])
      rw [clausesFrom?_cons h]
      by_cases mark : c = due.mark
      · subst mark
        rw [if_pos rfl]
        cases due with
        | opening => exact onward (.closing ['{']) _ ⟨front, rfl, behind.offset_eq.symm⟩
        | comma => exact onward .opening _ trivial
        | closing clause =>
            obtain ⟨before, rfl, rfl⟩ := begun
            have rest := onward .comma before.byteLength trivial
            show (r.slice? before.byteLength r.cursor.nextOffset).bind (fun clause =>
              (r.step.clausesFrom? Pizza.Awaiting.comma.mark before.byteLength).map
                (Except.map (clause :: ·))) = _
            rw [slice?_nextOffset behind h, Option.bind_some, rest]
            rfl
      · rw [if_neg mark]
        by_cases other : isClauseMark c = true
        · rw [if_pos other]
          cases due <;> rw [Pizza.clausesFrom, if_neg mark, if_pos other]
        · rw [if_neg other]
          cases due with
          | closing clause =>
              obtain ⟨before, rfl, rfl⟩ := begun
              rw [if_neg fun outside => outside.1 rfl, Pizza.clausesFrom, if_neg mark, if_neg other]
              exact onward (.closing (clause ++ [c])) _ ⟨before, List.append_assoc .., rfl⟩
          | opening | comma =>
              cases space : isSpace c with
              | true =>
                  rw [if_neg (by simp), Pizza.clausesFrom, if_neg mark, if_neg other,
                    if_pos space]
                  exact onward _ _ trivial
              | false =>
                  rw [if_pos ⟨by decide, rfl⟩, Pizza.clausesFrom, if_neg mark, if_neg other,
                    if_neg (by simp [space])]

/-! ### Whole texts -/

/-- The text without its comments, by offsets. -/
def uncomment? (text : Text) : Option (Except Diagnostic Text) :=
  (ofText text .preprocessing).uncommentFrom? none

/-- The lexemes of the text, by offsets. -/
def lexemes? (text : Text) : Option (Except Diagnostic (List Lexeme)) :=
  ((ofText text .tokenization).skipWhile isSpace).lexemesFrom?

/-- The clauses of the text between the outer brackets of a literal, by offsets. -/
def clauses? (text : Text) : Option (Except Pizza.Fault (List Text)) :=
  if text.isBlank then some (.ok []) else (ofText text .pizzaTokenization).clausesFrom? '{' 0

/-- The reader that takes comments out by offsets never fails to slice, and leaves what the zones
leave. -/
theorem uncomment?_eq (text : Text) : uncomment? text = some (uncomment text) := by
  have recorded : (ofText text .preprocessing).Recorded [] [] :=
    ⟨Cursor.behind_ofText text, rfl, List.forall_mem_nil _, List.forall_mem_nil _, rfl⟩
  have pass := uncommentFrom?_eq recorded none
  have whole : (uncomment text).map ([] ++ ·) = uncomment text := by
    cases uncomment text <;> rfl
  rw [uncomment?, pass]
  exact congrArg some whole

theorem lexemes?_eq (text : Text) : lexemes? text = some (Lexeme.scan text) := by
  have on := Call.continues_perform (ofText text .tokenization) (.skipWhile isSpace)
  have pass := lexemesFrom?_eq (on.sound (sound_ofText text .tokenization)) on.stage_eq
    (isSpace_head_skipWhile _)
  rw [lexemes?, Lexeme.scan, ← scanFrom_skipWhile]
  exact pass

theorem clauses?_eq (text : Text) : clauses? text = some (Pizza.clauses text) := by
  rw [clauses?, Pizza.clauses]
  split
  · rfl
  · exact clausesFrom?_eq (Cursor.behind_ofText text) (show Opened [] 0 .opening from trivial)

/-- **Readers stay between characters.**  Whatever is asked of a reader, its offset lies between
two characters of the text or at an end of it, its line is one more than the newlines in front
of that place, its column one more than the characters behind the last of them, and what it
reads from there on can be sliced.  A slice exists between two boundaries in order, and only
there; every slice that the three passes take exists, and so they answer. -/
theorem within_bounds (text : Text) :
    (∀ (stage : Stage) (calls : List Call),
      let r := (ofText text stage).after calls
      text.IsBoundary r.cursor.offset ∧ r.cursor.offset ≤ text.byteLength ∧
        (∃ front, text = front ++ r.cursor.rest ∧ front.byteLength = r.cursor.offset ∧
          r.cursor.location =
            ⟨1 + front.count '\n', 1 + (front.rtakeWhile (· != '\n')).length⟩) ∧
        ∀ more, (r.after more).slice? r.cursor.offset (r.after more).cursor.offset =
          some (r.cursor.upTo (r.after more).cursor)) ∧
      (∀ start stop, (text.slice? start stop).isSome = true ↔
        start ≤ stop ∧ text.IsBoundary start ∧ text.IsBoundary stop) ∧
      uncomment? text = some (uncomment text) ∧
      lexemes? text = some (Lexeme.scan text) ∧
      clauses? text = some (Pizza.clauses text) := by
  refine ⟨?_, fun _ _ => Text.isSome_slice?_iff, uncomment?_eq text, lexemes?_eq text,
    clauses?_eq text⟩
  intro stage calls r
  have on := continues_after (ofText text stage) calls
  have sound : r.Sound := on.sound (sound_ofText text stage)
  obtain ⟨front, behind⟩ := exists_behind text stage calls
  have boundary : text.IsBoundary r.cursor.offset :=
    ⟨front, _, behind.text_eq, behind.offset_eq.symm⟩
  refine ⟨boundary, boundary.le_byteLength, ⟨front, behind.text_eq, behind.offset_eq.symm, ?_⟩, ?_⟩
  · rw [behind.location_eq, Location.start_past]
  · intro more
    exact (continues_after r more).slice?_eq sound

end Reader

end Pizzeria
