import Mathlib.Data.List.Infix
import Mathlib.Data.List.TakeWhile
import Pizzeria.Proofs.Conversation

/-!
# How lines are cut into entries

Entries are read at the prompt one after the other, from lines that each reading shortens, until
a reading finds no line.  What is read are groups of neighbouring lines.  Inside a group no line
ends an entry, and the last line of every group ends one, except that the lines may run out in
the last group.

This says which groups they are without saying how they are found, and lines can be grouped in
only one such way.  In particular a blank line closes a group and is not taken for the end of
the lines, and lines that no ending follows are still read, once.

## Main Definitions

* `Input.Ends` — a line ends an entry.
* `Input.Grouped` — lines are put into groups where they end entries.
* `Input.readAll?` — the entries that a number of readings come to.

## Main Results

* `Input.closes_iff` — the lines at which a reading stops are those that end an entry.
* `Input.Grouped.unique` — there is one way to group lines.
* `Input.readAll?_eq_some_iff` — how many readings there are.
* `Input.entries_exact` — reading until nothing is left partitions the lines.
-/

namespace Pizzeria

namespace Input

/-! ### Lines that end an entry -/

/-- The line is blank, or nothing but white space follows a semicolon in it. -/
def Ends (line : Text) : Prop :=
  isBlank line = true ∨ ∃ front blanks, line = front ++ ';' :: blanks ∧ isBlank blanks = true

theorem closes_of_isBlank {line : Text} (blank : isBlank line = true) : closes line = true := by
  have skipped : line.reverse.dropWhile isWhiteSpace = [] := by
    refine List.dropWhile_eq_nil_iff.mpr fun c mem => ?_
    exact List.all_eq_true.mp blank c (List.mem_reverse.mp mem)
  rw [closes, skipped]

/-- A semicolon with nothing visible behind it closes an entry, whatever stands in front of it. -/
theorem closes_of_semicolon {front blanks : Text} (blank : isBlank blanks = true) :
    closes (front ++ ';' :: blanks) = true := by
  have skipped : (front ++ ';' :: blanks).reverse.dropWhile isWhiteSpace = ';' :: front.reverse := by
    rw [List.reverse_append, List.reverse_cons, List.append_assoc, List.singleton_append,
      List.dropWhile_append_of_pos, List.dropWhile_cons_of_neg (by decide)]
    intro c mem
    exact List.all_eq_true.mp blank c (List.mem_reverse.mp mem)
  rw [closes, skipped]
  rfl

/-- A line at which a reading stops is blank or its last visible character is a semicolon.  The
test goes through the line from its end. -/
theorem ends_of_closes {line : Text} (stops : closes line = true) : Ends line := by
  unfold closes at stops
  split at stops
  · rename_i skipped
    refine Or.inl (List.all_eq_true.mpr fun c mem => ?_)
    exact List.dropWhile_eq_nil_iff.mp skipped c (List.mem_reverse.mpr mem)
  · rename_i last others skipped
    have parts : line.reverse.takeWhile isWhiteSpace ++ ';' :: others = line.reverse := by
      rw [← beq_iff_eq.mp stops, ← skipped]
      exact List.takeWhile_append_dropWhile
    have whole := congrArg List.reverse parts
    rw [List.reverse_append, List.reverse_cons, List.append_assoc, List.reverse_reverse] at whole
    refine Or.inr ⟨others.reverse, (line.reverse.takeWhile isWhiteSpace).reverse, whole.symm, ?_⟩
    rw [isBlank, List.all_reverse]
    exact List.all_takeWhile

/-- The test of a line is the property of the line, so entries can be described without the
test. -/
theorem closes_iff {line : Text} : closes line = true ↔ Ends line := by
  constructor
  · exact ends_of_closes
  · rintro (blank | ⟨front, blanks, rfl, blank⟩)
    · exact closes_of_isBlank blank
    · exact closes_of_semicolon blank

/-! ### Groups of lines -/

/-- The groups are the lines, cut behind each line that ends an entry and nowhere else. -/
structure Grouped (lines : List Text) (groups : List (List Text)) : Prop where
  flatten_eq : groups.flatten = lines
  nonempty : ∀ group ∈ groups, group ≠ []
  onlyLast : ∀ group ∈ groups, ∀ line ∈ group.dropLast, ¬ Ends line
  closed : ∀ group ∈ groups.dropLast, ∃ last ∈ group.getLast?, Ends last

namespace Grouped

theorem nil : Grouped [] [] := ⟨rfl, by simp, by simp, by simp⟩

theorem eq_nil {groups : List (List Text)} (grouped : Grouped [] groups) : groups = [] := by
  cases groups with
  | nil => rfl
  | cons group groups =>
      have empty := List.flatten_eq_nil_iff.mp grouped.flatten_eq group List.mem_cons_self
      exact absurd empty (grouped.nonempty group List.mem_cons_self)

/-- One more group in front.  Unless it takes all the lines its last line has to end an
entry. -/
theorem cons {rest group : List Text} {groups : List (List Text)} (grouped : Grouped rest groups)
    (nonempty : group ≠ []) (onlyLast : ∀ line ∈ group.dropLast, ¬ Ends line)
    (closed : rest = [] ∨ ∃ last ∈ group.getLast?, Ends last) :
    Grouped (group ++ rest) (group :: groups) where
  flatten_eq := by rw [List.flatten_cons, grouped.flatten_eq]
  nonempty := List.forall_mem_cons.mpr ⟨nonempty, grouped.nonempty⟩
  onlyLast := List.forall_mem_cons.mpr ⟨onlyLast, grouped.onlyLast⟩
  closed := by
    rcases closed with rfl | closed
    -- Without lines there is no group behind this one, and the last group may be open.
    · rw [grouped.eq_nil]
      simp
    · cases groups with
      | nil => simp
      | cons next groups => exact List.forall_mem_cons.mpr ⟨closed, grouped.closed⟩

theorem tail {lines group : List Text} {groups : List (List Text)}
    (grouped : Grouped lines (group :: groups)) : Grouped groups.flatten groups where
  flatten_eq := rfl
  nonempty other mem := grouped.nonempty other (List.mem_cons_of_mem group mem)
  onlyLast other mem := grouped.onlyLast other (List.mem_cons_of_mem group mem)
  closed other mem := by
    refine grouped.closed other ?_
    rw [List.dropLast_cons_of_ne_nil (List.ne_nil_of_mem (List.mem_of_mem_dropLast mem))]
    exact List.mem_cons_of_mem group mem

/-- No group is the beginning of a longer one: its last line would end an entry inside the
longer one, or nothing would follow. -/
theorem eq_nil_of_longer {lines group more rest : List Text} {groups : List (List Text)}
    (grouped : Grouped lines (group :: groups)) (behind : groups.flatten = more ++ rest)
    (onlyLast : ∀ line ∈ (group ++ more).dropLast, ¬ Ends line) : more = [] := by
  by_contra longer
  have others : groups ≠ [] := by
    rintro rfl
    exact longer (List.append_eq_nil_iff.mp behind.symm).1
  have first : group ∈ (group :: groups).dropLast := by
    rw [List.dropLast_cons_of_ne_nil others]
    exact List.mem_cons_self
  obtain ⟨last, mem, ends⟩ := grouped.closed group first
  refine onlyLast last ?_ ends
  rw [List.dropLast_append_of_ne_nil longer]
  exact List.mem_append_left _ (List.mem_of_getLast? mem)

/-- There is one way to group lines.  The induction is on the groups; two first groups begin the
same lines, so one of them is the beginning of the other. -/
theorem unique {lines : List Text} {groups groups' : List (List Text)}
    (grouped : Grouped lines groups) (grouped' : Grouped lines groups') : groups = groups' := by
  induction groups generalizing lines groups' with
  | nil =>
      obtain rfl : [] = lines := grouped.flatten_eq
      exact grouped'.eq_nil.symm
  | cons group groups ih =>
      cases groups' with
      | nil =>
          obtain rfl : [] = lines := grouped'.flatten_eq
          exact grouped.eq_nil
      | cons group' groups' =>
          have same : group ++ groups.flatten = group' ++ groups'.flatten :=
            grouped.flatten_eq.trans grouped'.flatten_eq.symm
          have inside := grouped.onlyLast group List.mem_cons_self
          have inside' := grouped'.onlyLast group' List.mem_cons_self
          obtain ⟨rfl, behind⟩ : group = group' ∧ groups.flatten = groups'.flatten := by
            rcases List.append_eq_append_iff.mp same with ⟨more, rfl, behind⟩ | ⟨more, rfl, behind⟩
            · obtain rfl := grouped.eq_nil_of_longer behind inside'
              exact ⟨(List.append_nil _).symm, behind⟩
            · obtain rfl := grouped'.eq_nil_of_longer behind inside
              exact ⟨List.append_nil _, behind.symm⟩
          have rest := grouped.tail
          rw [behind] at rest
          rw [ih rest grouped'.tail]

end Grouped

/-! ### One reading -/

theorem not_ends_of_closedChunk?_none {lines : List Text} (none : closedChunk? lines = none) :
    ∀ line ∈ lines, ¬ Ends line := by
  induction lines with
  | nil => exact List.forall_mem_nil _
  | cons line lines ih =>
      rw [closedChunk?] at none
      split at none
      · cases none
      · rename_i goesOn
        refine List.forall_mem_cons.mpr ⟨mt closes_iff.mpr goesOn, ?_⟩
        exact ih (Option.map_eq_none_iff.mp none)

/-- In a closed chunk the last line ends the entry, and no line before it does. -/
theorem ends_of_closedChunk? {lines entry rest : List Text}
    (chunk : closedChunk? lines = some (entry, rest)) :
    (∀ line ∈ entry.dropLast, ¬ Ends line) ∧ ∃ last ∈ entry.getLast?, Ends last := by
  induction lines generalizing entry with
  | nil => cases chunk
  | cons line lines ih =>
      rw [closedChunk?] at chunk
      split at chunk
      · rename_i stops
        cases chunk
        exact ⟨List.forall_mem_nil _, line, rfl, closes_iff.mp stops⟩
      · rename_i goesOn
        obtain ⟨⟨others, behind⟩, found, same⟩ := Option.map_eq_some_iff.mp chunk
        cases same
        obtain ⟨inside, last, mem, ends⟩ := ih found
        have nonempty := (closedChunk?_eq_append found).2
        refine ⟨?_, last, ?_, ends⟩
        · rw [List.dropLast_cons_of_ne_nil nonempty]
          exact List.forall_mem_cons.mpr ⟨mt closes_iff.mpr goesOn, inside⟩
        · rw [List.getLast?_cons_of_ne_nil nonempty]
          exact mem

/-- A reading takes the lines up to the first one that ends an entry, or all of them.  This is one
group of the lines. -/
theorem exists_group_of_firstEntry {lines rest : List Text} {source : Text}
    (first : firstEntry lines = some (source, rest)) :
    ∃ group, source = unlines group ∧ lines = group ++ rest ∧ group ≠ [] ∧
      (∀ line ∈ group.dropLast, ¬ Ends line) ∧
      (rest = [] ∨ ∃ last ∈ group.getLast?, Ends last) := by
  obtain ⟨entry, text, chunk | ⟨unclosed, nonempty, rfl, rfl⟩⟩ := firstEntry_cases first
  · obtain ⟨split, nonempty⟩ := closedChunk?_eq_append chunk
    obtain ⟨inside, closed⟩ := ends_of_closedChunk? chunk
    exact ⟨entry, text, split, nonempty, inside, Or.inr closed⟩
  · refine ⟨entry, text, (List.append_nil _).symm, nonempty, ?_, Or.inl rfl⟩
    intro line mem
    exact not_ends_of_closedChunk?_none unclosed line (List.mem_of_mem_dropLast mem)

/-! ### Reading to the end -/

/-- The entries that are read one after the other, if within `n` readings there is one that
finds no line. -/
def readAll? : Nat → List Text → Option (List Text)
  | 0, _ => none
  | n + 1, lines =>
      match firstEntry lines with
      | none => some []
      | some (source, rest) => (readAll? n rest).map (source :: ·)

/-- Reading to the end takes one reading for each entry and one more, which finds no line.  With
fewer readings the end is not reached. -/
theorem readAll?_eq_some_iff {n : Nat} {lines sources : List Text} :
    readAll? n lines = some sources ↔ sources = entries lines ∧ sources.length < n := by
  induction n generalizing lines sources with
  | zero => simp [readAll?]
  | succ n ih =>
      rw [readAll?]
      cases first : firstEntry lines with
      | none =>
          rw [entries_of_none first]
          constructor
          · intro read
            cases read
            exact ⟨rfl, Nat.succ_pos n⟩
          · rintro ⟨rfl, -⟩
            rfl
      | some entry =>
          obtain ⟨source, rest⟩ := entry
          rw [entries_of_some first]
          constructor
          · intro read
            obtain ⟨others, found, rfl⟩ := Option.map_eq_some_iff.mp read
            obtain ⟨rfl, within⟩ := ih.mp found
            exact ⟨rfl, Nat.succ_lt_succ within⟩
          · rintro ⟨rfl, within⟩
            exact Option.map_eq_some_iff.mpr
              ⟨entries rest, ih.mpr ⟨rfl, Nat.lt_of_succ_lt_succ within⟩, rfl⟩

/-- There are no more entries than lines, so a bound for the number of readings is known in
advance. -/
theorem length_entries_le (lines : List Text) : (entries lines).length ≤ lines.length := by
  induction lines using entries.induct with
  | case1 lines nothing =>
      rw [entries_of_none nothing]
      exact Nat.zero_le _
  | case2 lines source rest first shorter ih =>
      rw [entries_of_some first]
      exact Nat.lt_of_le_of_lt ih shorter

/-- The entries of lines are the groups of the lines as texts.  The induction is along the
readings, each of which takes one group off. -/
theorem exists_grouped (lines : List Text) :
    ∃ groups, Grouped lines groups ∧ entries lines = groups.map unlines := by
  induction lines using entries.induct with
  | case1 lines nothing =>
      obtain rfl := eq_nil_of_firstEntry nothing
      exact ⟨[], Grouped.nil, entries_of_none nothing⟩
  | case2 lines source rest first shorter ih =>
      obtain ⟨groups, grouped, others⟩ := ih
      obtain ⟨group, rfl, split, nonempty, inside, closed⟩ := exists_group_of_firstEntry first
      refine ⟨group :: groups, ?_, ?_⟩
      · rw [split]
        exact grouped.cons nonempty inside closed
      · rw [entries_of_some first, others, List.map_cons]

/-- **Reading to the end partitions the lines.**  It ends within one reading for each line and
one more.  What is read are the groups that the lines fall into behind each line that ends an
entry: inside a group no line does, the last one of every group but the last does, no group is
empty, and there is no other way to group the lines like this.  The texts that are read are not
empty either, and put together they are all the lines with a newline behind each. -/
theorem entries_exact (lines : List Text) :
    ∃ groups, Grouped lines groups ∧ (∀ others, Grouped lines others → others = groups) ∧
      (∀ n, lines.length < n → readAll? n lines = some (groups.map unlines)) ∧
      (∀ n sources, readAll? n lines = some sources → sources = groups.map unlines) ∧
      (∀ source ∈ groups.map unlines, source ≠ []) ∧
      (groups.map unlines).flatten = unlines lines := by
  obtain ⟨groups, grouped, same⟩ := exists_grouped lines
  refine ⟨groups, grouped, fun others grouped' => grouped'.unique grouped, ?_⟩
  rw [← same]
  refine ⟨?_, ?_, ?_, flatten_entries lines⟩
  · intro n within
    have count := length_entries_le lines
    exact readAll?_eq_some_iff.mpr ⟨rfl, Nat.lt_of_le_of_lt count within⟩
  · intro n sources read
    exact (readAll?_eq_some_iff.mp read).1
  · intro source mem
    obtain ⟨text, rfl⟩ := exists_of_mem_entries mem
    exact List.append_ne_nil_of_right_ne_nil text (List.cons_ne_nil _ _)

end Input

end Pizzeria
