import Mathlib.Data.List.Basic
import Pizzeria.Token.Keyword

/-!
# Words and their tables

Words are looked up in capitals.  A word table has every entry of its kind, spelled in capital
letters and no two alike, so that every entry is found under its own spelling.  The components
of the menu and the keywords are such tables; second spellings may stand behind them.  And only
letters spell a keyword.

## Main Definitions

* `WordTable` — the entries of a table and how they are spelled.

## Main Results

* `Text.trim_eq_self`, `Text.splitOn_append_of_notMem` — trimming and splitting of plain text.
* `isLetter_toUpper` — letters have capitals that are letters.
* `WordTable.findWord_word` — an entry is found under its word.
* `Keyword.isLetter_of_ofWord?` — only letters spell a keyword.
-/

namespace Pizzeria

/-! ### Plain text -/

/-- No letter is white space.  Words of letters have nothing to trim, and end only where something
else begins. -/
theorem isSpace_eq_false_of_isLetter {c : Char} (letter : isLetter c = true) :
    isSpace c = false := by
  by_contra space
  simp only [isSpace, Bool.not_eq_false, Bool.or_eq_true, beq_iff_eq] at space
  rcases space with (((rfl | rfl) | rfl) | rfl) | rfl <;> exact absurd letter (by decide)

/-- No word ends at a letter, so a word of letters is cut off whole. -/
theorem endsWord_eq_false_of_isLetter {c : Char} (letter : isLetter c = true) :
    endsWord c = false := by
  have notDelimiter : c ≠ ';' := by
    rintro rfl
    exact absurd letter (by decide)
  simp [endsWord, isSpace_eq_false_of_isLetter letter, notDelimiter]

namespace Text

/-- Text without white space has none to lose at its ends.  So the words of the menu come through
trimming as they are. -/
theorem trim_eq_self {t : Text} (solid : ∀ c ∈ t, isSpace c = false) : t.trim = t := by
  have keeps : ∀ u : Text, (∀ c ∈ u, isSpace c = false) → u.dropWhile isSpace = u := by
    intro u solid
    cases u with
    | nil => rfl
    | cons c u => exact List.dropWhile_cons_of_neg (by simp [solid c List.mem_cons_self])
  unfold trim
  rw [keeps t solid, keeps t.reverse, List.reverse_reverse]
  intro c mem
  exact solid c (List.mem_reverse.mp mem)

/-- The interior of a literal is what stands between its opener and its closer.  This is how
decoding gets to the body of every literal. -/
theorem interior_enclosed (opener closer : Char) (t : Text) :
    interior (opener :: (t ++ [closer])) = t := by
  unfold interior
  rw [List.tail_cons, List.dropLast_concat]

theorem splitOn_cons_self (sep : Char) (t : Text) :
    (sep :: t).splitOn sep = [] :: t.splitOn sep := by
  rw [List.splitOn_cons_eq_if_modifyHead, if_pos (beq_self_eq_true sep)]

/-- A character other than the separator goes into the first part, and the separators behind it
stay where they are. -/
theorem splitOn_cons_of_ne {sep c : Char} (other : c ≠ sep) {t first : Text} {others : List Text}
    (parts : t.splitOn sep = first :: others) :
    (c :: t).splitOn sep = (c :: first) :: others := by
  rw [List.splitOn_cons_eq_if_modifyHead, if_neg (mt beq_iff_eq.mp other), parts,
    List.modifyHead_cons]

/-- Text without separators in front of a text goes into its first part.  White space that a
program adds in front of a separator, or behind one, is such text. -/
theorem splitOn_append_of_notMem {sep : Char} {front : Text} (h : sep ∉ front) {t first : Text}
    {others : List Text} (parts : t.splitOn sep = first :: others) :
    (front ++ t).splitOn sep = (front ++ first) :: others := by
  induction front with
  | nil => exact parts
  | cons c front ih =>
      rw [List.mem_cons, not_or] at h
      exact splitOn_cons_of_ne (Ne.symm h.1) (ih h.2)

/-- The separator is in none of the parts; so the lines of a text are lines, with no newline
left in them. -/
theorem notMem_of_mem_splitOn {sep : Char} {t part : Text} (mem : part ∈ t.splitOn sep) :
    sep ∉ part := by
  induction t generalizing part with
  | nil =>
      rw [List.splitOn_nil, List.mem_singleton] at mem
      subst mem
      exact List.not_mem_nil
  | cons c t ih =>
      by_cases separates : c = sep
      · rw [separates, splitOn_cons_self] at mem
        rcases List.mem_cons.mp mem with rfl | mem
        · exact List.not_mem_nil
        · exact ih mem
      · obtain ⟨first, others, parts⟩ := List.exists_cons_of_ne_nil (List.splitOn_ne_nil sep t)
        rw [splitOn_cons_of_ne separates parts] at mem
        rw [parts] at ih
        rcases List.mem_cons.mp mem with rfl | mem
        · rw [List.mem_cons, not_or]
          exact ⟨Ne.symm separates, ih List.mem_cons_self⟩
        · exact ih (List.mem_cons_of_mem first mem)

theorem join_singleton (sep t : Text) : join sep [t] = t :=
  List.intercalate_singleton

/-- Joining puts the separator behind the first part and joins the others.  The parts can be taken
off one by one from the left. -/
theorem join_cons_cons (sep t u : Text) (ts : List Text) :
    join sep (t :: u :: ts) = t ++ (sep ++ join sep (u :: ts)) := by
  unfold join
  rw [List.intercalate_cons_cons, List.append_assoc]

end Text

/-! ### Letters -/

/-- The numbers of letters lie in one range, with a few other characters between the capitals and
the small letters.  That is enough to tell letters from digits and from what is not ASCII. -/
theorem toNat_of_isLetter {c : Char} (letter : isLetter c = true) :
    65 ≤ c.toNat ∧ c.toNat ≤ 122 := by
  rcases Bool.or_eq_true_iff.mp letter with upper | lower
  · obtain ⟨low, high⟩ := of_decide_eq_true upper
    have low : 65 ≤ c.toNat := UInt32.le_iff_toNat_le.mp low
    have high : c.toNat ≤ 90 := UInt32.le_iff_toNat_le.mp high
    omega
  · obtain ⟨low, high⟩ := Bool.and_eq_true_iff.mp lower
    have low : 97 ≤ c.toNat := UInt32.le_iff_toNat_le.mp (of_decide_eq_true low)
    have high : c.toNat ≤ 122 := UInt32.le_iff_toNat_le.mp (of_decide_eq_true high)
    omega

theorem isLetter_of_toNat {c : Char} (low : 65 ≤ c.toNat) (high : c.toNat ≤ 90) :
    isLetter c = true := by
  have upper : c.isUpper = true :=
    decide_eq_true ⟨UInt32.le_iff_toNat_le.mpr low, UInt32.le_iff_toNat_le.mpr high⟩
  exact Bool.or_eq_true_iff.mpr (Or.inl upper)

/-- Letters, and nothing else, have capitals that are letters.  So a word whose capitals spell a
keyword consists of letters itself. -/
theorem isLetter_toUpper (c : Char) : isLetter c.toUpper = isLetter c := by
  unfold Char.toUpper
  split
  · rename_i lower
    have low : 97 ≤ c.val.toNat := UInt32.le_iff_toNat_le.mp lower.1
    have high : c.val.toNat ≤ 122 := UInt32.le_iff_toNat_le.mp lower.2
    -- The sum is a difference, because it wraps around.
    have moved : (c.val + ('A'.val - 'a'.val)).toNat = c.val.toNat - 32 := by
      rw [UInt32.toNat_add]
      show (c.val.toNat + 4294967264) % 4294967296 = _
      omega
    have isLower : c.isLower = true :=
      Bool.and_eq_true_iff.mpr ⟨decide_eq_true lower.1, decide_eq_true lower.2⟩
    rw [show isLetter c = true from Bool.or_eq_true_iff.mpr (Or.inr isLower)]
    exact isLetter_of_toNat (by omega : 65 ≤ (c.val + ('A'.val - 'a'.val)).toNat)
      (by omega : (c.val + ('A'.val - 'a'.val)).toNat ≤ 90)
  · rfl

/-! ### Word tables -/

/-- What is found in a table stands there under the word in capitals.  The entries of a table
are all there is to find. -/
theorem mem_of_findWord {α : Type} {table : List (Text × α)} {word : Text} {entry : α}
    (h : findWord table word = some entry) : (word.upper, entry) ∈ table := by
  rw [findWord, List.lookup_eq_some_iff] at h
  obtain ⟨before, behind, rfl, -⟩ := h
  simp

/-- The entries of a word table: the list has all of them, every word consists of capital
letters, of at least one, and no two entries have the same word. -/
structure WordTable {α : Type} (word : α → Text) (entries : List α) : Prop where
  complete : ∀ e, e ∈ entries
  proper : ∀ e ∈ entries, word e ≠ [] ∧ (word e).all isLetter = true ∧ (word e).upper = word e
  distinct : (entries.map word).Nodup

namespace WordTable

variable {α : Type} {word : α → Text} {entries : List α}

theorem ne_nil (table : WordTable word entries) (e : α) : word e ≠ [] :=
  (table.proper e (table.complete e)).1

/-- The characters of a word are letters, so no colon, bracket or white space is among them. -/
theorem all_isLetter (table : WordTable word entries) (e : α) : (word e).all isLetter = true :=
  (table.proper e (table.complete e)).2.1

/-- **An entry is found under its word.**  Second spellings behind the entries do not hide
them, since the first match is taken. -/
theorem findWord_word (table : WordTable word entries) {rows : List (Text × α)}
    (starts : (entries.map fun e => (word e, e)) <+: rows) (e : α) :
    findWord rows (word e) = some e := by
  obtain ⟨aliases, rfl⟩ := starts
  have ⟨_, _, capitals⟩ := table.proper e (table.complete e)
  have distinct := table.distinct
  obtain ⟨before, behind, place⟩ := List.append_of_mem (table.complete e)
  rw [place, List.map_append, List.map_cons, List.nodup_append] at distinct
  rw [findWord, capitals, List.lookup_eq_some_iff]
  refine ⟨before.map fun e => (word e, e), (behind.map fun e => (word e, e)) ++ aliases, ?_, ?_⟩
  · rw [place, List.map_append, List.map_cons, List.append_assoc, List.cons_append]
  · -- No entry in front of this one has its word.
    intro row mem
    obtain ⟨other, inFront, rfl⟩ := List.mem_map.mp mem
    have apart := distinct.2.2 _ (List.mem_map_of_mem inFront) _ List.mem_cons_self
    exact bne_iff_ne.mpr apart.symm

end WordTable

-- The tables are evaluated once as a whole, not once for each entry.

theorem Crust.wordTable : WordTable Crust.word Crust.all :=
  ⟨fun c => by cases c <;> decide, by decide +kernel, by decide +kernel⟩

theorem Sauce.wordTable : WordTable Sauce.word Sauce.all :=
  ⟨fun s => by cases s <;> decide, by decide +kernel, by decide +kernel⟩

theorem Cheese.wordTable : WordTable Cheese.word Cheese.all :=
  ⟨fun c => by cases c <;> decide, by decide +kernel, by decide +kernel⟩

theorem Topping.wordTable : WordTable Topping.word Topping.all :=
  ⟨fun t => by cases t <;> decide, by decide +kernel, by decide +kernel⟩

theorem Position.wordTable : WordTable Position.word Position.all :=
  ⟨fun p => by cases p <;> decide, by decide +kernel, by decide +kernel⟩

theorem Keyword.wordTable : WordTable Keyword.spelling Keyword.all :=
  ⟨fun k => by cases k <;> decide, by decide +kernel, by decide +kernel⟩

/-! ### Keywords -/

namespace Keyword

/-- A keyword is found under its spelling.  This is how a written program is read back. -/
theorem ofWord?_spelling (k : Keyword) : ofWord? k.spelling = some k :=
  wordTable.findWord_word List.prefix_rfl k

/-- A word that means a keyword is its spelling, but for the case of its letters.  There are no
second spellings of keywords. -/
theorem upper_of_ofWord? {word : Text} {k : Keyword} (h : ofWord? word = some k) :
    word.upper = k.spelling := by
  obtain ⟨entry, -, same⟩ := List.mem_map.mp (mem_of_findWord h)
  obtain ⟨spelling, rfl⟩ := Prod.mk.inj same
  exact spelling.symm

/-- Only letters spell a keyword.  So a keyword ends where a word of letters ends, and no
bracket, quote or `#` is part of one. -/
theorem isLetter_of_ofWord? {word : Text} {k : Keyword} (h : ofWord? word = some k) :
    ∀ c ∈ word, isLetter c = true := by
  intro c mem
  have capital : c.toUpper ∈ k.spelling := by
    rw [← upper_of_ofWord? h]
    exact List.mem_map_of_mem mem
  rw [← isLetter_toUpper]
  exact List.all_eq_true.mp (wordTable.all_isLetter k) _ capital

end Keyword

end Pizzeria
