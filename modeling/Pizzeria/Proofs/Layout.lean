import Pizzeria.Proofs.Comment
import Pizzeria.Proofs.Scanning

/-!
# Layout

Between the lexemes of a source text stand white space and comments.  Leaving the
comments out and cutting the lexemes are two passes with a state of their own each:
the first follows literals from opener to closer wherever they begin, the second
only where a lexeme begins.  The two can disagree, but only behind a word that has
characters other than letters in it, and such a word is no keyword.

## Main Definitions

* `Layout` — white space and complete comments.
* `Lexeme.Neat` — text that both passes read alike.
* `Lexeme.LaidOut` — a source text is the given lexemes, in order and at their
  locations, with layout before, between and behind them.
* `Lexeme.ofSourceFrom` — both passes, from a location outside literals and
  comments on.

## Main Results

* `Lexeme.LaidOut.ofSourceFrom_append` — text that is laid out is read as laid out,
  whatever follows it.
* `Lexeme.exists_readFirst` — the first lexeme that is read, if it is neat, stands in
  the source.
-/

namespace Pizzeria

/-- White space and comments, each comment with the newline that ends it. -/
inductive Layout : Text → Prop where
  | nil : Layout []
  | space {c : Char} {t : Text} (space : isSpace c = true) (tail : Layout t) : Layout (c :: t)
  | comment {note t : Text} (inLine : '\n' ∉ note) (tail : Layout t) :
      Layout ('#' :: (note ++ '\n' :: t))

namespace Layout

/-- Layout behind layout is layout, so gaps can be put together. -/
theorem append {t u : Text} (front : Layout t) (back : Layout u) : Layout (t ++ u) := by
  induction front with
  | nil => exact back
  | space space _ ih => exact .space space ih
  | @comment note t inLine _ ih =>
      rw [List.cons_append, List.append_assoc, List.cons_append]
      exact .comment inLine ih

theorem of_isBlank {t : Text} (blank : t.isBlank = true) : Layout t := by
  induction t with
  | nil => exact .nil
  | cons c t ih =>
      obtain ⟨space, tail⟩ := Bool.and_eq_true_iff.mp blank
      exact .space space (ih tail)

/-- Every text begins with some layout.  What follows is the end, a comment that no
newline ends, or a character of neither kind.  The induction is on the length, since
a comment is taken as a whole. -/
theorem exists_front (t : Text) :
    ∃ gap rest, t = gap ++ rest ∧ Layout gap ∧
      (rest = [] ∨ (∃ note, rest = '#' :: note ∧ '\n' ∉ note) ∨
        ∃ c u, rest = c :: u ∧ isSpace c = false ∧ c ≠ '#') := by
  induction length : t.length using Nat.strongRecOn generalizing t with
  | _ n ih =>
      cases t with
      | nil => exact ⟨[], [], rfl, .nil, Or.inl rfl⟩
      | cons c t =>
          by_cases space : isSpace c = true
          · obtain ⟨gap, rest, rfl, layout, kind⟩ := ih t.length (by simp [← length]) t rfl
            exact ⟨c :: gap, rest, rfl, .space space layout, kind⟩
          by_cases comment : c = '#'
          · subst comment
            by_cases ended : '\n' ∈ t
            · obtain ⟨note, behind, rfl, inLine⟩ := List.eq_append_cons_of_mem ended
              have shorter : behind.length < n := by
                rw [← length, List.length_cons, List.length_append, List.length_cons]
                omega
              obtain ⟨gap, rest, rfl, layout, kind⟩ := ih behind.length shorter behind rfl
              refine ⟨'#' :: (note ++ '\n' :: gap), rest, ?_, .comment inLine layout, kind⟩
              simp
            · exact ⟨[], '#' :: t, rfl, .nil, Or.inr (Or.inl ⟨t, rfl, ended⟩)⟩
          · exact ⟨[], c :: t, rfl, .nil, Or.inr (Or.inr ⟨c, t, rfl, by simpa using space, comment⟩)⟩

end Layout

namespace Lexeme

/-! ### Neat text -/

/-- Text of a lexeme that is read alike whether comments are left out first or not:
letters, a complete literal, or a semicolon. -/
inductive Neat : Token.Kind → Text → Prop where
  | word {w : Text} (nonempty : w ≠ []) (letters : ∀ c ∈ w, isLetter c = true) :
      Neat .keyword w
  | literal {opener closer : Char} {kind : Token.Kind} {body : Text}
      (opens : bracket? opener = some (closer, kind)) (inside : closer ∉ body) :
      Neat kind (opener :: (body ++ [closer]))
  | delimiter : Neat .delimiter [';']

/-- A word can end in front of the text: at white space, a semicolon or a comment. -/
def WordEnds (rest : Text) : Prop :=
  ∃ c u, rest = c :: u ∧ (endsWord c = true ∨ c = '#')

/-- The text at a location is the given lexemes, each at the place that it carries,
and layout around them. -/
inductive LaidOut : Location → Text → List Lexeme → Prop where
  /-- Layout behind the last lexeme. -/
  | done {l : Location} {gap : Text} (layout : Layout gap) : LaidOut l gap []
  /-- Layout in front of a lexeme, the lexeme, and the others. -/
  | token {l : Location} {gap rest : Text} {x : Lexeme} {xs : List Lexeme}
      (layout : Layout gap) (place : x.location = l.past gap) (neat : Neat x.kind x.text)
      (ends : x.kind = .keyword → WordEnds rest)
      (tail : LaidOut (x.location.past x.text) rest xs) :
      LaidOut l (gap ++ (x.text ++ rest)) (x :: xs)

/-- A lexeme with no layout in front of it.  Texts that are built piece by piece have the layout
behind each piece instead. -/
theorem LaidOut.cons {l : Location} {kind : Token.Kind} {w rest : Text} {xs : List Lexeme}
    (neat : Neat kind w) (ends : kind = .keyword → WordEnds rest)
    (tail : LaidOut (l.past w) rest xs) : LaidOut l (w ++ rest) (⟨kind, l, w⟩ :: xs) :=
  .token (x := ⟨kind, l, w⟩) .nil rfl neat ends tail

theorem Neat.letters {w : Text} (neat : Neat .keyword w) : ∀ c ∈ w, isLetter c = true := by
  generalize kind : Token.Kind.keyword = k at neat
  cases neat with
  | word _ letters => exact letters
  | literal opens _ =>
      subst kind
      rcases bracket?_cases opens with h | h | h | h <;> exact absurd h.2.2 (by decide)
  | delimiter => cases kind

theorem Neat.ne_nil {kind : Token.Kind} {w : Text} (neat : Neat kind w) : w ≠ [] := by
  cases neat with
  | word nonempty _ => exact nonempty
  | literal _ _ => exact List.cons_ne_nil _ _
  | delimiter => exact List.cons_ne_nil _ _

/-- Neat text begins and ends outside literals and comments, and all of it is kept.  This is what
the pass that leaves comments out needs to know of a lexeme. -/
theorem Neat.passes {kind : Token.Kind} {w : Text} (neat : Neat kind w) (l : Location) :
    Zone.code.past l w = .code ∧ Zone.code.kept l w = w := by
  cases neat with
  | word _ letters => exact Zone.code_plain (fun c mem => plain_of_class rfl (letters c mem)) l
  | literal opens inside => exact Zone.code_literal opens inside l
  | delimiter => exact ⟨rfl, rfl⟩

/-- Neat text is cut off as one lexeme, a word if its end follows.  This is what the pass that
cuts lexemes needs to know of it. -/
theorem Neat.cut {kind : Token.Kind} {w rest : Text} (neat : Neat kind w)
    (ends : kind = .keyword → ∃ stop u, rest = stop :: u ∧ endsWord stop = true) :
    Cut kind w rest := by
  cases neat with
  | word nonempty letters =>
      obtain ⟨stop, u, rfl, stops⟩ := ends rfl
      obtain ⟨first, w, rfl⟩ := List.exists_cons_of_ne_nil nonempty
      refine .word (letters first List.mem_cons_self) (fun c mem => ?_) stops
      exact endsWord_eq_false_of_isLetter (letters c (List.mem_cons_of_mem first mem))
  | literal opens inside => exact .literal opens inside
  | delimiter => exact .delimiter

/-! ### Reading what is laid out -/

/-- The lexemes of a source text at a location outside literals and comments. -/
def ofSourceFrom (l : Location) (source : Text) : Except Diagnostic (List Lexeme) := do
  let code ← uncommentFrom .code l source
  scanFrom ⟨code, 0, l⟩

theorem ofSourceFrom_nil (l : Location) : ofSourceFrom l [] = .ok [] := scanFrom_of_nil rfl

/-- A beginning of the source that both passes leave at its end is read first.  What is left of it
stands in front of what is left of the rest. -/
theorem ofSourceFrom_append {l : Location} {t left : Text}
    (passes : Zone.code.past l t = .code ∧ Zone.code.kept l t = left) (rest : Text) :
    ofSourceFrom l (t ++ rest) =
      uncommentFrom .code (l.past t) rest >>= fun code => scanFrom ⟨left ++ code, 0, l⟩ := by
  rw [ofSourceFrom, uncommentFrom_append, passes.1, passes.2]
  cases uncommentFrom .code (l.past t) rest <;> rfl

/-- Scanning is a run from where it begins.  The lemmas below say for one step what the run
does. -/
theorem scanned_scanFrom (l : Location) (t : Text) : Scanned l t (scanFrom ⟨t, 0, l⟩) :=
  (scanFrom_eq_iff (c := ⟨t, 0, l⟩)).mp rfl

theorem scanFrom_space {c : Char} (space : isSpace c = true) (l : Location) (t : Text) :
    scanFrom ⟨c :: t, 0, l⟩ = scanFrom ⟨t, 0, l.after c⟩ :=
  scanFrom_eq_iff.mpr (.space space (scanned_scanFrom (l.after c) t))

theorem scanFrom_cut {kind : Token.Kind} {w t : Text} (cut : Cut kind w t) (l : Location) :
    scanFrom ⟨w ++ t, 0, l⟩ = (scanFrom ⟨t, 0, l.past w⟩).map (⟨kind, l, w⟩ :: ·) :=
  scanFrom_eq_iff.mpr (.cut cut (scanned_scanFrom (l.past w) t))

theorem scanFrom_stuck {l : Location} {t : Text} {d : Diagnostic} (stuck : Stuck l t d) :
    scanFrom ⟨t, 0, l⟩ = .error d :=
  scanFrom_eq_iff.mpr (.stuck stuck)

/-- A beginning of which one blank is left only moves the source.  A single blank and a whole
comment are both of this sort. -/
theorem ofSourceFrom_blank {l : Location} {t : Text} {c : Char}
    (passes : Zone.code.past l t = .code ∧ Zone.code.kept l t = [c])
    (space : isSpace c = true) (place : l.past t = l.after c) (rest : Text) :
    ofSourceFrom l (t ++ rest) = ofSourceFrom (l.past t) rest := by
  rw [ofSourceFrom_append passes, ofSourceFrom]
  congr 1
  funext code
  rw [List.singleton_append, scanFrom_space space, place]

/-- Layout in front of a source text only moves it.  The induction is on the layout, one blank or
comment at a time. -/
theorem ofSourceFrom_layout {gap : Text} (layout : Layout gap) (l : Location) (rest : Text) :
    ofSourceFrom l (gap ++ rest) = ofSourceFrom (l.past gap) rest := by
  induction layout generalizing l with
  | nil => rfl
  | @space c t space _ ih =>
      have plain : ∀ d ∈ [c], d ≠ '#' ∧ bracket? d = none := by
        intro d mem
        rw [List.mem_singleton.mp mem]
        exact plain_of_class rfl space
      rw [List.cons_append, ← List.singleton_append,
        ofSourceFrom_blank (Zone.code_plain plain l) space rfl, ih]
      rfl
  | @comment note t inLine _ ih =>
      have skipped : l.past ('#' :: (note ++ ['\n'])) = l.after '\n' := by
        rw [← List.cons_append, Location.past_rest_of_line]
        simpa using inLine
      have split : '#' :: (note ++ '\n' :: t) = '#' :: (note ++ ['\n']) ++ t := by simp
      rw [split, List.append_assoc, ofSourceFrom_blank (Zone.code_comment inLine l) rfl skipped,
        ih, Location.past_append]

/-- What is left of a source text in front of which a word can end begins with such
an end. -/
theorem exists_of_wordEnds {l : Location} {rest code : Text} (ends : WordEnds rest)
    (left : uncommentFrom .code l rest = .ok code) :
    ∃ stop u, code = stop :: u ∧ endsWord stop = true := by
  obtain ⟨c, u, rfl, stops | rfl⟩ := ends
  · have plain : ∀ d ∈ [c], d ≠ '#' ∧ bracket? d = none := by
      intro d mem
      rw [List.mem_singleton.mp mem]
      exact plain_of_class rfl stops
    obtain ⟨behind, keeps⟩ := Zone.code_plain plain l
    rw [← List.singleton_append, uncommentFrom_append, behind, keeps] at left
    obtain ⟨others, -, rfl⟩ := Except.map_eq_ok_iff.mp left
    exact ⟨c, others, rfl, stops⟩
  · by_cases ended : '\n' ∈ u
    · obtain ⟨note, v, rfl, inLine⟩ := List.eq_append_cons_of_mem ended
      obtain ⟨behind, keeps⟩ := Zone.code_comment inLine l
      have split : '#' :: (note ++ '\n' :: v) = '#' :: (note ++ ['\n']) ++ v := by simp
      rw [split, uncommentFrom_append, behind, keeps] at left
      obtain ⟨others, -, rfl⟩ := Except.map_eq_ok_iff.mp left
      exact ⟨'\n', others, rfl, rfl⟩
    · rw [uncommentFrom_eq_error (Zone.code_openComment ended l)] at left
      cases left

/-- A neat lexeme in front of a source text is read first, and the rest as if it stood alone, but
at its place. -/
theorem ofSourceFrom_neat {kind : Token.Kind} {w rest : Text} (neat : Neat kind w)
    (ends : kind = .keyword → WordEnds rest) (l : Location) :
    ofSourceFrom l (w ++ rest) =
      (ofSourceFrom (l.past w) rest).map (⟨kind, l, w⟩ :: ·) := by
  rw [ofSourceFrom_append (neat.passes l), ofSourceFrom]
  cases left : uncommentFrom .code (l.past w) rest with
  | error d => rfl
  | ok code =>
      have cut : Cut kind w code := neat.cut fun word => exists_of_wordEnds (ends word) left
      exact scanFrom_cut cut l

/-- Source text that is laid out is read as the lexemes that it is laid out as, and
then what follows it is read, from where it begins. -/
theorem LaidOut.ofSourceFrom_append {l : Location} {t : Text} {xs : List Lexeme}
    (laid : LaidOut l t xs) (rest : Text) :
    ofSourceFrom l (t ++ rest) = (ofSourceFrom (l.past t) rest).map (xs ++ ·) := by
  induction laid with
  | @done l gap layout =>
      rw [ofSourceFrom_layout layout]
      cases ofSourceFrom (l.past gap) rest <;> rfl
  | @token l gap u x xs layout place neat ends _ ih =>
      have follows : x.kind = .keyword → WordEnds (u ++ rest) := by
        intro word
        obtain ⟨c, v, rfl, stops⟩ := ends word
        exact ⟨c, v ++ rest, rfl, stops⟩
      rw [List.append_assoc, List.append_assoc, ofSourceFrom_layout layout,
        ofSourceFrom_neat neat follows, ← place, ih, Location.past_append, Location.past_append,
        ← place]
      cases ofSourceFrom ((x.location.past x.text).past u) rest <;> rfl

/-! ### What is read is laid out -/

/-- A word of letters that is read stands in the source, and can end there.  In what is left of
the source, a comment behind it has been replaced by the end of its line. -/
theorem exists_of_word {l : Location} {source w rest : Text} {stop : Char}
    (neat : Neat .keyword w) (stops : endsWord stop = true)
    (left : uncommentFrom .code l source = .ok (w ++ stop :: rest)) :
    ∃ behind, source = w ++ behind ∧ WordEnds behind := by
  have inLine : '\n' ∉ w := fun newline => absurd (neat.letters _ newline) (by decide)
  obtain ⟨behind, rfl⟩ :=
    Zone.exists_of_kept_code_eq (kept_of_uncommentFrom left) neat.ne_nil inLine
  refine ⟨behind, rfl, ?_⟩
  rw [uncommentFrom_append, (neat.passes l).1, (neat.passes l).2] at left
  obtain ⟨others, left, same⟩ := Except.map_eq_ok_iff.mp left
  obtain rfl := List.append_cancel_left same
  have kept := kept_of_uncommentFrom left
  cases behind with
  | nil => cases kept
  | cons c u =>
      refine ⟨c, u, rfl, ?_⟩
      by_cases comment : c = '#'
      · exact Or.inr comment
      · have keeps : Zone.code.comments c = false := by simp [Zone.comments, comment]
        rw [Zone.kept, keeps, if_neg Bool.false_ne_true] at kept
        rw [(List.cons.inj kept).1]
        exact Or.inl stops

/-- `x` is read first from the source at `l`, in which it stands, and `xs` are read
from what follows it. -/
def ReadFirst (l : Location) (source : Text) (x : Lexeme) (xs : List Lexeme) : Prop :=
  ∃ rest, source = x.text ++ rest ∧ x.location = l ∧ (x.kind = .keyword → WordEnds rest) ∧
    ofSourceFrom (x.location.past x.text) rest = .ok xs

/-- Neat text at the front of the source is the lexeme that is read first, since reading can do
only one thing with it. -/
theorem readFirst_of_neat {l : Location} {w rest : Text} {kind : Token.Kind} {x : Lexeme}
    {xs : List Lexeme} (neat : Neat kind w) (ends : kind = .keyword → WordEnds rest)
    (read : ofSourceFrom l (w ++ rest) = .ok (x :: xs)) : ReadFirst l (w ++ rest) x xs := by
  rw [ofSourceFrom_neat neat ends] at read
  obtain ⟨others, tail, same⟩ := Except.map_eq_ok_iff.mp read
  obtain ⟨rfl, rfl⟩ := List.cons.inj same
  exact ⟨rest, rfl, rfl, ends, tail⟩

/-- A character that begins no comment is left at the front, so both passes start at the same
character. -/
theorem exists_of_ofSourceFrom_cons {l : Location} {c : Char} {u : Text} {xs : List Lexeme}
    (notComment : c ≠ '#') (read : ofSourceFrom l (c :: u) = .ok xs) :
    ∃ code, uncommentFrom .code l (c :: u) = .ok (c :: code) ∧
      scanFrom ⟨c :: code, 0, l⟩ = .ok xs := by
  obtain ⟨code, left, scanned⟩ := Except.bind_eq_ok_iff.mp read
  have keeps : Zone.code.comments c = false := by simp [Zone.comments, notComment]
  have kept := kept_of_uncommentFrom left
  rw [Zone.kept, keeps, if_neg Bool.false_ne_true] at kept
  subst kept
  exact ⟨_, left, scanned⟩

/-- A letter at the front begins the lexeme that is read first.  Only if this one is neat does the
source have it as it is. -/
theorem readFirst_of_letter {l : Location} {c : Char} {u : Text} {x : Lexeme}
    {xs : List Lexeme} (letter : isLetter c = true) (neat : Neat x.kind x.text)
    (read : ofSourceFrom l (c :: u) = .ok (x :: xs)) : ReadFirst l (c :: u) x xs := by
  obtain ⟨code, left, scanned⟩ := exists_of_ofSourceFrom_cons (plain_of_class rfl letter).1 read
  rcases exists_first_or_none endsWord code with ⟨w, stop, rest, rfl, inside, stops⟩ | inside
  · rw [← List.cons_append, scanFrom_cut (.word letter inside stops)] at scanned
    obtain ⟨others, -, same⟩ := Except.map_eq_ok_iff.mp scanned
    obtain ⟨rfl, -⟩ := List.cons.inj same
    obtain ⟨behind, split, ends⟩ := exists_of_word neat stops left
    rw [split] at read ⊢
    exact readFirst_of_neat neat (fun _ => ends) read
  · rw [scanFrom_stuck (.word letter inside)] at scanned
    cases scanned

/-- An opener at the front begins a literal, which both passes read alike up to its closer. -/
theorem readFirst_of_opener {l : Location} {opener closer : Char} {kind : Token.Kind}
    {u : Text} {x : Lexeme} {xs : List Lexeme}
    (opens : bracket? opener = some (closer, kind))
    (read : ofSourceFrom l (opener :: u) = .ok (x :: xs)) : ReadFirst l (opener :: u) x xs := by
  by_cases closed : closer ∈ u
  · obtain ⟨body, rest, rfl, inside⟩ := List.eq_append_cons_of_mem closed
    have neat : Neat kind (opener :: (body ++ [closer])) := .literal opens inside
    have split : opener :: (body ++ closer :: rest) = opener :: (body ++ [closer]) ++ rest := by
      simp
    have notWord : kind = .keyword → WordEnds rest := by
      intro word
      rcases bracket?_cases opens with h | h | h | h <;> exact absurd (h.2.2.symm.trans word) (by decide)
    rw [split] at read ⊢
    exact readFirst_of_neat neat notWord read
  -- Both passes take everything up to the end for the inside of the literal.
  · obtain ⟨behind, keeps⟩ := Zone.code_openLiteral opens closed l
    have left : uncommentFrom .code l (opener :: u) = .ok (opener :: u) := by
      rw [uncommentFrom_eq_ok (by simp [behind]), keeps]
    rw [ofSourceFrom, left] at read
    have refused := scanFrom_stuck (l := l) (.literal opens closed)
    exact absurd (refused.symm.trans read) (by simp)

/-- The first lexeme that is read stands in the source behind layout if it is neat,
and the others are read from what follows it. -/
theorem exists_readFirst {l : Location} {source : Text} {x : Lexeme} {xs : List Lexeme}
    (read : ofSourceFrom l source = .ok (x :: xs)) (neat : Neat x.kind x.text) :
    ∃ gap t, source = gap ++ t ∧ Layout gap ∧ ReadFirst (l.past gap) t x xs := by
  obtain ⟨gap, t, rfl, layout, front⟩ := Layout.exists_front source
  rw [ofSourceFrom_layout layout] at read
  refine ⟨gap, t, rfl, layout, ?_⟩
  rcases front with rfl | ⟨note, rfl, inLine⟩ | ⟨c, u, rfl, notSpace, notComment⟩
  · rw [ofSourceFrom_nil] at read
    cases read
  · rw [ofSourceFrom, uncommentFrom_eq_error (Zone.code_openComment inLine _)] at read
    cases read
  by_cases letter : isLetter c = true
  · exact readFirst_of_letter letter neat read
  cases opens : bracket? c with
  | some pair => exact readFirst_of_opener opens read
  | none =>
      by_cases delimiter : c = ';'
      · subst delimiter
        exact readFirst_of_neat .delimiter (fun word => by cases word) read
      · have stray : Stray c := ⟨notSpace, by simpa using letter, opens, delimiter⟩
        obtain ⟨code, -, scanned⟩ := exists_of_ofSourceFrom_cons notComment read
        rcases exists_first_or_none endsWord code with ⟨w, stop, rest, rfl, inside, stops⟩ | inside
        · rw [scanFrom_stuck (.stray stray inside stops)] at scanned
          cases scanned
        · rw [scanFrom_stuck (.lastStray stray inside)] at scanned
          cases scanned

/-- Source text that has no lexemes is layout, since anything else would begin one. -/
theorem layout_of_ofSourceFrom {l : Location} {source : Text}
    (read : ofSourceFrom l source = .ok []) : Layout source := by
  obtain ⟨gap, t, rfl, layout, front⟩ := Layout.exists_front source
  rw [ofSourceFrom_layout layout] at read
  rcases front with rfl | ⟨note, rfl, inLine⟩ | ⟨c, u, rfl, notSpace, notComment⟩
  · rwa [List.append_nil]
  · rw [ofSourceFrom, uncommentFrom_eq_error (Zone.code_openComment inLine _)] at read
    cases read
  · obtain ⟨code, -, scanned⟩ := exists_of_ofSourceFrom_cons notComment read
    rcases front_cases (l.past gap) (c :: code) with h | ⟨d, u, h, space⟩ | ⟨kind, w, u, cut, h⟩ | ⟨d, stuck⟩
    · cases h
    · rw [(List.cons.inj h).1, space] at notSpace
      cases notSpace
    · rw [h, scanFrom_cut cut] at scanned
      obtain ⟨others, -, same⟩ := Except.map_eq_ok_iff.mp scanned
      cases same
    · rw [scanFrom_stuck stuck] at scanned
      cases scanned

/-- Source text from which neat lexemes are read is laid out as these.  The induction takes off
one lexeme and the layout in front of it. -/
theorem laidOut_of_ofSourceFrom {l : Location} {source : Text} {xs : List Lexeme}
    (read : ofSourceFrom l source = .ok xs) (neat : ∀ x ∈ xs, Neat x.kind x.text) :
    LaidOut l source xs := by
  induction xs generalizing l source with
  | nil => exact .done (layout_of_ofSourceFrom read)
  | cons x xs ih =>
      obtain ⟨gap, t, rfl, layout, rest, rfl, place, ends, tail⟩ :=
        exists_readFirst read (neat x List.mem_cons_self)
      have others := ih tail fun y mem => neat y (List.mem_cons_of_mem x mem)
      exact .token layout place (neat x List.mem_cons_self) ends others

/-- A neat lexeme that is read behind neat lexemes stands in the source where it says.  What is
read behind it need not be neat, and may not even be decoded. -/
theorem exists_of_ofSourceFrom {l : Location} {source : Text} {before behind : List Lexeme}
    {x : Lexeme} (read : ofSourceFrom l source = .ok (before ++ x :: behind))
    (neatBefore : ∀ y ∈ before, Neat y.kind y.text) (neat : Neat x.kind x.text) :
    ∃ front rest, source = front ++ (x.text ++ rest) ∧ l.past front = x.location := by
  induction before generalizing l source with
  | nil =>
      obtain ⟨gap, t, rfl, -, rest, rfl, place, -⟩ := exists_readFirst read neat
      exact ⟨gap, rest, rfl, place.symm⟩
  | cons y before ih =>
      obtain ⟨gap, t, rfl, -, rest, rfl, place, -, tail⟩ :=
        exists_readFirst read (neatBefore y List.mem_cons_self)
      obtain ⟨front, rest', rfl, found⟩ :=
        ih tail fun z mem => neatBefore z (List.mem_cons_of_mem y mem)
      refine ⟨gap ++ (y.text ++ front), rest', by simp, ?_⟩
      rw [Location.past_append, Location.past_append, ← place, found]

/-! ### Accepted sources -/

/-- A lexeme that is decoded is neat: only letters spell a keyword.  A word in which the two
passes could disagree is refused at this point. -/
theorem neat_of_decode {x : Lexeme} {rest : Text} {t : Token} (cut : Cut x.kind x.text rest)
    (decoded : x.decode = .ok t) : Neat x.kind x.text := by
  obtain ⟨value, meaning, -⟩ := Except.map_eq_ok_iff.mp decoded
  rcases x with ⟨kind, place, text⟩
  cases cut with
  | word letter inside stops =>
      rename_i first stop w u
      cases found : Keyword.ofWord? (first :: w) with
      | none => simp [Lexeme.value, found] at meaning
      | some k => exact .word (List.cons_ne_nil first w) (Keyword.isLetter_of_ofWord? found)
  | literal opens inside => exact .literal opens inside
  | delimiter => exact .delimiter

/-- What decoding refuses a lexeme for: it reports the lexeme itself, for a fault of its kind
or, in a literal, for a fault of the literal. -/
theorem exists_refusal_of_decode {x : Lexeme} {d : Diagnostic} (refused : x.decode = .error d) :
    ∃ kind message, d = x.refusal kind message ∧
      (kind = .invalidKeyword ∨ kind = .invalidInteger ∨ kind = .invalidString ∨
        ∃ fault : Pizza.Fault, kind = fault.kind) := by
  have meaning : x.value = .error d := Except.map_eq_error_iff.mp refused
  unfold value at meaning
  split at meaning
  · split at meaning <;> cases meaning
    exact ⟨_, _, rfl, Or.inl rfl⟩
  · split at meaning <;> cases meaning
    exact ⟨_, _, rfl, Or.inr (Or.inl rfl)⟩
  · split at meaning <;> cases meaning
    exact ⟨_, _, rfl, Or.inr (Or.inr (Or.inl rfl))⟩
  · split at meaning <;> cases meaning
    exact ⟨_, _, rfl, Or.inr (Or.inr (Or.inr ⟨_, rfl⟩))⟩
  · split at meaning <;> cases meaning
    exact ⟨_, _, rfl, Or.inr (Or.inr (Or.inr ⟨_, rfl⟩))⟩
  · cases meaning

/-- Every lexeme of a source text was cut off somewhere, so it has the shape of its kind. -/
theorem exists_cut_of_ofSourceFrom {l : Location} {source : Text} {xs : List Lexeme}
    (read : ofSourceFrom l source = .ok xs) {x : Lexeme} (mem : x ∈ xs) :
    ∃ rest, Cut x.kind x.text rest := by
  obtain ⟨code, -, scanned⟩ := Except.bind_eq_ok_iff.mp read
  obtain ⟨front, rest, -, -, cut⟩ := (scanned_scanFrom l code).exists_cut scanned mem
  exact ⟨rest, cut⟩

/-- Those lexemes of a source text that are decoded are neat.  It is enough to decode up to the
place that one is interested in. -/
theorem neat_of_ofLexemes {l : Location} {source : Text} {xs ys : List Lexeme} {ts : List Token}
    (read : ofSourceFrom l source = .ok ys) (among : xs ⊆ ys)
    (decoded : Token.ofLexemes xs = .ok ts) : ∀ x ∈ xs, Neat x.kind x.text := by
  intro x mem
  obtain ⟨rest, cut⟩ := exists_cut_of_ofSourceFrom read (among mem)
  obtain ⟨t, -, decodes⟩ := Except.exists_of_mem_of_mapM decoded mem
  exact neat_of_decode cut decodes

/-- **Comments and lexemes agree on every accepted source.**  If the lexemes that are
cut from what is left of a source text can all be decoded, then the source is these
lexemes, each at the location that it carries, with nothing but white space and
comments before, between and behind them. -/
theorem laidOut_of_accepted {source code : Text} {xs : List Lexeme} {ts : List Token}
    (left : uncomment (Program.closeLine source) = .ok code) (scanned : scan code = .ok xs)
    (decoded : Token.ofLexemes xs = .ok ts) :
    LaidOut .start (Program.closeLine source) xs ∧
      ∀ x ∈ xs, ∃ rest,
        (Program.closeLine source).atLocation? x.location = some (x.text ++ rest) := by
  have read : ofSourceFrom .start (Program.closeLine source) = .ok xs :=
    Except.bind_eq_ok_iff.mpr ⟨code, left, scanned⟩
  have neat := neat_of_ofLexemes read (List.Subset.refl xs) decoded
  refine ⟨laidOut_of_ofSourceFrom read neat, fun x mem => ?_⟩
  obtain ⟨before, behind, rfl⟩ := List.append_of_mem mem
  obtain ⟨front, rest, split, place⟩ :=
    exists_of_ofSourceFrom read (fun y first => neat y (List.mem_append_left _ first)) (neat x mem)
  exact ⟨rest, Text.atLocation?_eq_some_iff.mpr ⟨front, split, place⟩⟩

/-- A number sign in a string, and a quote in a comment that follows a word at once. -/
theorem laidOut_of_accepted_quote_in_comment :
    uncomment (Program.closeLine "NAME SESSION#\"\n\"#1\"; # \"2\"") =
        .ok "NAME SESSION\n\"#1\"; \n" ∧
      LaidOut .start (Program.closeLine "NAME SESSION#\"\n\"#1\"; # \"2\"")
        [⟨.keyword, ⟨1, 1⟩, "NAME"⟩, ⟨.keyword, ⟨1, 6⟩, "SESSION"⟩,
          ⟨.string, ⟨2, 1⟩, "\"#1\""⟩, ⟨.delimiter, ⟨2, 5⟩, ";"⟩] := by
  have left : uncomment (Program.closeLine "NAME SESSION#\"\n\"#1\"; # \"2\"") =
      .ok "NAME SESSION\n\"#1\"; \n" := by
    decide +kernel
  have scanned : scan "NAME SESSION\n\"#1\"; \n" =
      .ok [⟨.keyword, ⟨1, 1⟩, "NAME"⟩, ⟨.keyword, ⟨1, 6⟩, "SESSION"⟩,
        ⟨.string, ⟨2, 1⟩, "\"#1\""⟩, ⟨.delimiter, ⟨2, 5⟩, ";"⟩] := by
    decide +kernel
  have decoded : Token.ofLexemes
      [⟨.keyword, ⟨1, 1⟩, "NAME"⟩, ⟨.keyword, ⟨1, 6⟩, "SESSION"⟩,
        ⟨.string, ⟨2, 1⟩, "\"#1\""⟩, ⟨.delimiter, ⟨2, 5⟩, ";"⟩] =
      .ok [⟨.keyword .NAME, ⟨1, 1⟩, "NAME"⟩, ⟨.keyword .SESSION, ⟨1, 6⟩, "SESSION"⟩,
        ⟨.string "#1", ⟨2, 1⟩, "\"#1\""⟩, ⟨.delimiter, ⟨2, 5⟩, ";"⟩] := by
    decide +kernel
  exact ⟨left, (laidOut_of_accepted left scanned decoded).1⟩

end Lexeme

end Pizzeria
