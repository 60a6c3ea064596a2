import Pizzeria.Program
import Pizzeria.Proofs.Outcome

/-!
# Splitting tokens into statements

Splitting at the delimiters loses no other token and keeps their order.  Tokens that
end with a delimiter can be read before what follows them is known, so a program is
read one statement after the other.

## Main Results

* `Program.flatten_segments` — the segments are the tokens without the delimiters.
* `Program.ofTokens_append` — tokens that are a program are read in front of others.
* `Program.exists_of_ofTokens_eq_error` — where a refusal comes from.
-/

namespace Pizzeria.Program

/-! ### Segments -/

/-- A delimiter ends an empty segment.  Semicolons one behind the other make empty segments, which
mean nothing. -/
theorem segments_of_delimiter {t : Token} (delimiter : t.isDelimiter = true) (ts : List Token) :
    segments (t :: ts) = ([] :: (segments ts).1, (segments ts).2) := by
  simp only [segments, if_pos delimiter]

/-- A token in front of a segment that is closed belongs to it.  The splitting goes from the
right, so the segment is known already. -/
theorem segments_of_closed {t : Token} (inside : t.isDelimiter = false) {ts : List Token}
    {segment : List Token} {others : List (List Token)}
    (closed : (segments ts).1 = segment :: others) :
    segments (t :: ts) = ((t :: segment) :: others, (segments ts).2) := by
  simp only [segments, inside, closed, Bool.false_eq_true, if_false]

/-- A token in front of tokens without a delimiter is left with them, and there is no segment for
it yet. -/
theorem segments_of_open {t : Token} (inside : t.isDelimiter = false) {ts : List Token}
    (unclosed : (segments ts).1 = []) : segments (t :: ts) = ([], t :: (segments ts).2) := by
  simp only [segments, inside, unclosed, Bool.false_eq_true, if_false]

/-- Splitting loses the delimiters and nothing else.  Every other token is in a segment or in the
rest, in its order. -/
theorem flatten_segments (ts : List Token) :
    (segments ts).1.flatten ++ (segments ts).2 = ts.filter fun t => !t.isDelimiter := by
  induction ts with
  | nil => rfl
  | cons t ts ih =>
      cases inside : t.isDelimiter with
      | true =>
          rw [segments_of_delimiter inside, List.filter_cons_of_neg (by simp [inside]), ← ih]
          rfl
      | false =>
          rw [List.filter_cons_of_pos (by simp [inside]), ← ih]
          cases closed : (segments ts).1 with
          | nil =>
              rw [segments_of_open inside closed]
              rfl
          | cons segment others =>
              rw [segments_of_closed inside closed]
              rfl

theorem mem_of_mem_segment {ts segment : List Token} (closed : segment ∈ (segments ts).1)
    {t : Token} (mem : t ∈ segment) : t ∈ ts := by
  have kept : t ∈ (segments ts).1.flatten ++ (segments ts).2 :=
    List.mem_append_left _ (List.mem_flatten_of_mem closed mem)
  rw [flatten_segments] at kept
  exact List.mem_of_mem_filter kept

theorem mem_of_mem_rest {ts : List Token} {t : Token} (mem : t ∈ (segments ts).2) : t ∈ ts := by
  have kept : t ∈ (segments ts).1.flatten ++ (segments ts).2 := List.mem_append_right _ mem
  rw [flatten_segments] at kept
  exact List.mem_of_mem_filter kept

/-- Behind a last delimiter the splitting starts anew.  So programs can be split one by one. -/
theorem segments_append {ts : List Token} (closed : (segments ts).2 = []) (us : List Token) :
    segments (ts ++ us) = ((segments ts).1 ++ (segments us).1, (segments us).2) := by
  induction ts with
  | nil => rfl
  | cons t ts ih =>
      cases inside : t.isDelimiter with
      | true =>
          rw [segments_of_delimiter inside] at closed ⊢
          rw [List.cons_append, segments_of_delimiter inside, ih closed]
          rfl
      | false =>
          cases first : (segments ts).1 with
          | nil =>
              rw [segments_of_open inside first] at closed
              cases closed
          | cons segment others =>
              rw [segments_of_closed inside first] at closed ⊢
              have whole := ih closed
              have first' : (segments (ts ++ us)).1 = segment :: (others ++ (segments us).1) := by
                rw [whole, first]
                rfl
              rw [List.cons_append, segments_of_closed inside first', whole]
              rfl

/-- A change of the tokens that leaves the delimiters alone changes the segments token
by token. -/
theorem segments_map {f : Token → Token} (same : ∀ t, (f t).isDelimiter = t.isDelimiter)
    (ts : List Token) :
    segments (ts.map f) = ((segments ts).1.map (List.map f), (segments ts).2.map f) := by
  induction ts with
  | nil => rfl
  | cons t ts ih =>
      have first := same t
      cases inside : t.isDelimiter with
      | true =>
          rw [inside] at first
          rw [List.map_cons, segments_of_delimiter first, segments_of_delimiter inside, ih]
          rfl
      | false =>
          rw [inside] at first
          cases closed : (segments ts).1 with
          | nil =>
              have closed' : (segments (ts.map f)).1 = [] := by
                rw [ih, closed]
                rfl
              rw [List.map_cons, segments_of_open first closed', segments_of_open inside closed, ih]
              rfl
          | cons segment others =>
              have closed' : (segments (ts.map f)).1 = segment.map f :: others.map (List.map f) := by
                rw [ih, closed]
                rfl
              rw [List.map_cons, segments_of_closed first closed',
                segments_of_closed inside closed, ih]
              rfl

/-- Tokens between delimiters are one segment, if none of them is a delimiter. -/
theorem segments_segment {segment : List Token}
    (inside : ∀ t ∈ segment, t.isDelimiter = false) {d : Token} (delimiter : d.isDelimiter = true) :
    segments (segment ++ [d]) = ([segment], []) := by
  induction segment with
  | nil => exact segments_of_delimiter delimiter []
  | cons t segment ih =>
      have rest := ih fun u mem => inside u (List.mem_cons_of_mem t mem)
      rw [List.cons_append,
        segments_of_closed (inside t List.mem_cons_self) (congrArg Prod.fst rest), rest]

/-! ### Programs -/

/-- Tokens without a rest are read segment by segment, the empty ones passed over. -/
theorem ofTokens_of_closed {ts : List Token} (closed : (segments ts).2 = []) (g : Grammar) :
    ofTokens g ts = ((segments ts).1.filter fun segment => !segment.isEmpty).mapM g.statement := by
  unfold ofTokens
  split
  · rename_i split
    rw [split] at closed
    cases closed
  · rename_i split
    rw [split]

/-- A rest is refused at its first token before any segment is read.  So a missing delimiter is
reported in preference to all else. -/
theorem ofTokens_of_open {ts rest : List Token} {t : Token}
    (unclosed : (segments ts).2 = t :: rest) (g : Grammar) :
    ofTokens g ts = .error (missingDelimiter t) := by
  unfold ofTokens
  split
  · rename_i split
    rw [split] at unclosed
    cases unclosed
    rfl
  · rename_i split
    rw [split] at unclosed
    cases unclosed

theorem closed_of_ofTokens {g : Grammar} {ts : List Token} {program : Program}
    (read : ofTokens g ts = .ok program) : (segments ts).2 = [] := by
  cases rest : (segments ts).2 with
  | nil => rfl
  | cons t rest' =>
      rw [ofTokens_of_open rest] at read
      cases read

/-- Tokens that are a program are read in front of other tokens, whatever these come
to. -/
theorem ofTokens_append {g : Grammar} {ts : List Token} {program : Program}
    (read : ofTokens g ts = .ok program) (us : List Token) :
    ofTokens g (ts ++ us) = (ofTokens g us).map (program ++ ·) := by
  have closed := closed_of_ofTokens read
  have whole := segments_append closed us
  -- A delimiter that is missing at the end is reported ahead of every statement.
  cases rest : (segments us).2 with
  | cons t rest' =>
      rw [ofTokens_of_open rest, ofTokens_of_open (by rw [whole, rest])]
      rfl
  | nil =>
      rw [ofTokens_of_closed closed] at read
      rw [ofTokens_of_closed rest, ofTokens_of_closed (by rw [whole, rest]), whole,
        List.filter_append, List.mapM_append, read]
      rfl

/-- A statement and its delimiter are a program of this one statement. -/
theorem ofTokens_statement {g : Grammar} {segment : List Token} {s : Statement}
    (nonempty : segment ≠ []) (inside : ∀ t ∈ segment, t.isDelimiter = false)
    (read : g.statement segment = .ok s) {d : Token} (delimiter : d.isDelimiter = true) :
    ofTokens g (segment ++ [d]) = .ok [s] := by
  have split := segments_segment inside delimiter
  rw [ofTokens_of_closed (by rw [split]), split, List.filter_cons_of_pos (by simpa using nonempty)]
  exact Except.mapM_cons_eq_ok read rfl

/-- Every statement of a program is read from tokens that are among the given ones.  No statement
is made up of what stands apart. -/
theorem exists_of_mem_ofTokens {g : Grammar} {ts : List Token} {program : Program}
    (read : ofTokens g ts = .ok program) {s : Statement} (mem : s ∈ program) :
    ∃ segment ⊆ ts, g.statement segment = .ok s := by
  rw [ofTokens_of_closed (closed_of_ofTokens read)] at read
  obtain ⟨segment, closed, meaning⟩ := Except.exists_of_mem_mapM read mem
  exact ⟨segment, fun t => mem_of_mem_segment (List.mem_of_mem_filter closed), meaning⟩

/-- Tokens are refused because the last delimiter is missing, or as a statement that
is not empty. -/
theorem exists_of_ofTokens_eq_error {g : Grammar} {ts : List Token} {d : Diagnostic}
    (refused : ofTokens g ts = .error d) :
    (∃ t ∈ ts, d = missingDelimiter t) ∨
      ∃ segment ⊆ ts, segment ≠ [] ∧ g.statement segment = .error d := by
  cases rest : (segments ts).2 with
  | cons t rest' =>
      rw [ofTokens_of_open rest] at refused
      cases refused
      exact Or.inl ⟨t, mem_of_mem_rest (by rw [rest]; exact List.mem_cons_self), rfl⟩
  | nil =>
      rw [ofTokens_of_closed rest] at refused
      obtain ⟨before, segment, behind, -, split, -, meaning⟩ := Except.mapM_eq_error_iff.mp refused
      have mem : segment ∈ (segments ts).1.filter fun segment => !segment.isEmpty := by
        rw [split]
        exact List.mem_append_right _ List.mem_cons_self
      obtain ⟨closed, nonempty⟩ := List.mem_filter.mp mem
      exact Or.inr ⟨segment, fun t => mem_of_mem_segment closed, by simpa using nonempty, meaning⟩

end Pizzeria.Program
