import Mathlib.Data.List.DropRight
import Mathlib.Data.List.Induction
import Pizzeria.Proofs.Location
import Pizzeria.Proofs.Scanning
import Pizzeria.Source.Excision

/-!
# Boundaries between characters

A byte offset names a place in a text only if it lies between two characters, and a slice only
exists between two such places.  A reader never leaves them: whatever is asked of it, it stands
behind some beginning of its text, its offset is the length of that beginning in bytes, and its
location follows from the newlines in it.  So two offsets that a reader had one after the other
can always be sliced between.

## Main Definitions

* `Text.IsBoundary` — an offset lies between two characters.
* `Cursor.Behind` — a cursor stands behind a beginning of a text.
* `Reader.Call`, `Reader.after` — what can be asked of a reader, and the reader after that.

## Main Results

* `Text.isSome_slice?_iff` — which slices exist.
* `Location.start_past` — lines and columns, counted in the text.
* `Reader.exists_behind` — a reader stands behind a beginning of its text.
* `Reader.Continues.slice?_eq` — the text between two offsets of a reader.
-/

namespace Pizzeria

/-! ### Offsets and slices -/

namespace Text

/-- The byte offset lies between two characters of the text, or at one of its ends. -/
def IsBoundary (text : Text) (n : Nat) : Prop :=
  ∃ front back, text = front ++ back ∧ front.byteLength = n

theorem IsBoundary.le_byteLength {text : Text} {n : Nat} (boundary : text.IsBoundary n) :
    n ≤ text.byteLength := by
  obtain ⟨front, back, rfl, rfl⟩ := boundary
  rw [byteLength_append]
  exact Nat.le_add_right _ _

@[simp] theorem byteLength_eq_zero_iff {t : Text} : t.byteLength = 0 ↔ t = [] := by
  cases t with
  | nil => simp
  | cons c t =>
      have positive := c.utf8Size_pos
      simp only [byteLength_cons, reduceCtorEq, iff_false]
      omega

/-- Of two beginnings of a text the one with more bytes goes on from the other.  So boundaries are
ordered like the beginnings that end at them. -/
theorem exists_append_of_byteLength_le {front back front' back' : Text}
    (same : front ++ back = front' ++ back') (le : front.byteLength ≤ front'.byteLength) :
    ∃ mid, front' = front ++ mid ∧ back = mid ++ back' := by
  rcases List.append_eq_append_iff.mp same with ⟨mid, longer, shorter⟩ | ⟨mid, longer, shorter⟩
  · exact ⟨mid, longer, shorter⟩
  · obtain rfl : mid = [] := by
      rw [longer, byteLength_append] at le
      rw [← byteLength_eq_zero_iff]
      omega
    exact ⟨[], by rw [longer, List.append_nil, List.append_nil], shorter.symm⟩

/-- Splitting a text at the length of its beginning gives the beginning.  The induction takes one
character off both at a time, so no character is ever split. -/
theorem splitAtByte?_byteLength (front back : Text) :
    (front ++ back).splitAtByte? front.byteLength = some (front, back) := by
  induction front with
  | nil => cases back <;> rfl
  | cons c front ih =>
      have positive := c.utf8Size_pos
      rw [List.cons_append, splitAtByte?, byteLength_cons, if_neg (by omega),
        if_pos (Nat.le_add_right _ _), Nat.add_sub_cancel_left, ih]
      rfl

/-- A text is split at a number of bytes exactly where a beginning of it has that many.  In the
middle of a character there is no such beginning, and the split fails. -/
theorem splitAtByte?_eq_some_iff {text front back : Text} {n : Nat} :
    text.splitAtByte? n = some (front, back) ↔ text = front ++ back ∧ front.byteLength = n := by
  constructor
  · intro cut
    fun_induction splitAtByte? n text generalizing front with
    | case1 => simp_all
    | case2 => cases cut
    | case3 c cs => simp_all
    | case4 n c cs _ fits ih =>
        obtain ⟨⟨front, back⟩, inner, same⟩ := Option.map_eq_some_iff.mp cut
        cases same
        obtain ⟨rfl, length⟩ := ih inner
        exact ⟨rfl, by rw [byteLength_cons]; omega⟩
    | case5 => cases cut
  · rintro ⟨rfl, rfl⟩
    exact splitAtByte?_byteLength front back

theorem isSome_splitAtByte?_iff {text : Text} {n : Nat} :
    (text.splitAtByte? n).isSome = true ↔ text.IsBoundary n := by
  simp only [Option.isSome_iff_exists, Prod.exists, splitAtByte?_eq_some_iff, IsBoundary]

instance decidableIsBoundary (text : Text) (n : Nat) : Decidable (text.IsBoundary n) :=
  decidable_of_iff _ isSome_splitAtByte?_iff

/-- A slice between two offsets is what lies between two beginnings of the text that end there. -/
theorem slice?_eq_some_iff {text mid : Text} {start stop : Nat} :
    text.slice? start stop = some mid ↔
      ∃ front back, text = front ++ (mid ++ back) ∧ front.byteLength = start ∧
        (front ++ mid).byteLength = stop := by
  constructor
  · intro sliced
    unfold slice? at sliced
    split at sliced
    · cases sliced
    · rename_i ordered
      simp only [Option.bind_eq_bind, Option.bind_eq_some_iff, Prod.exists, Option.pure_def,
        Option.some.injEq, splitAtByte?_eq_some_iff] at sliced
      obtain ⟨front, _, ⟨rfl, rfl⟩, mid, back, ⟨rfl, length⟩, rfl⟩ := sliced
      exact ⟨front, back, rfl, rfl, by rw [byteLength_append]; omega⟩
  · rintro ⟨front, back, rfl, rfl, rfl⟩
    have ordered : ¬ (front ++ mid).byteLength < front.byteLength := by
      rw [byteLength_append]
      omega
    have length : (front ++ mid).byteLength - front.byteLength = mid.byteLength := by
      rw [byteLength_append]
      omega
    simp only [slice?, if_neg ordered, length, splitAtByte?_byteLength, Option.bind_eq_bind,
      Option.bind_some]
    rfl

/-- A slice exists between two boundaries, the first not behind the second, and only there.
Anywhere else a slice would cut a character in two or run backwards. -/
theorem isSome_slice?_iff {text : Text} {start stop : Nat} :
    (text.slice? start stop).isSome = true ↔
      start ≤ stop ∧ text.IsBoundary start ∧ text.IsBoundary stop := by
  constructor
  · intro found
    obtain ⟨mid, sliced⟩ := Option.isSome_iff_exists.mp found
    obtain ⟨front, back, rfl, rfl, rfl⟩ := slice?_eq_some_iff.mp sliced
    refine ⟨?_, ⟨front, mid ++ back, rfl, rfl⟩, ⟨front ++ mid, back, ?_, rfl⟩⟩
    · rw [byteLength_append]
      exact Nat.le_add_right _ _
    · rw [List.append_assoc]
  · rintro ⟨ordered, ⟨front, back, rfl, rfl⟩, ⟨front', back', same, rfl⟩⟩
    obtain ⟨mid, rfl, rfl⟩ := exists_append_of_byteLength_le same ordered
    exact Option.isSome_iff_exists.mpr
      ⟨mid, slice?_eq_some_iff.mpr ⟨front, back', rfl, rfl, rfl⟩⟩

-- Characters of two, three and four bytes; the offset 3 lies inside the second one.
example : slice? ['é', '€', '🍕'] 2 9 = some ['€', '🍕'] ∧ slice? ['é', '€', '🍕'] 3 9 = none := by
  decide

end Text

/-! ### Lines and columns -/

/-- The line behind a text is one more than its newlines, the column one more than the
characters behind the last of them. -/
theorem Location.start_past (t : Text) :
    Location.start.past t = ⟨1 + t.count '\n', 1 + (t.rtakeWhile (· != '\n')).length⟩ := by
  induction t using List.reverseRecOn with
  | nil => rfl
  | append_singleton t c ih =>
      rw [past_append, ih, List.count_append, List.rtakeWhile_concat, past_cons, past_nil]
      by_cases newline : c = '\n'
      · subst newline
        rfl
      · rw [after_of_ne newline, if_pos (by simpa using newline), List.length_append,
          List.count_singleton, if_neg (by simpa using newline)]
        rfl

/-! ### Cursors in a text -/

namespace Cursor

/-- The cursor stands in the text behind `front`. -/
structure Behind (text front : Text) (c : Cursor) : Prop where
  text_eq : text = front ++ c.rest
  offset_eq : c.offset = front.byteLength
  location_eq : c.location = Location.start.past front

theorem behind_ofText (text : Text) : (ofText text).Behind text [] := ⟨rfl, rfl, rfl⟩

/-- A cursor that moves on stands behind what it was behind, and what it has read.  The offset is
counted in bytes and the location in lines and columns, and both follow the text. -/
theorem Behind.drop {text front : Text} {c : Cursor} (behind : c.Behind text front) (n : Nat) :
    (c.drop n).Behind text (front ++ c.rest.take n) where
  text_eq := by
    rw [Cursor.drop, List.append_assoc, List.take_append_drop]
    exact behind.text_eq
  offset_eq := by rw [Cursor.drop, Text.byteLength_append, behind.offset_eq]
  location_eq := by rw [Cursor.drop, Location.past_append, behind.location_eq]

/-- Reading a text moves the cursor to its end, with the offset and the location that belong
there. -/
theorem drop_length {c : Cursor} {w rest : Text} (h : c.rest = w ++ rest) :
    c.drop w.length = ⟨rest, c.offset + w.byteLength, c.location.past w⟩ := by
  simp [drop, h]

theorem skipWhile_eq_drop (p : Char → Bool) (c : Cursor) :
    c.skipWhile p = c.drop (c.rest.takeWhile p).length := by
  have parts : c.rest = c.rest.takeWhile p ++ c.rest.dropWhile p :=
    List.takeWhile_append_dropWhile.symm
  rw [drop_length parts, skipWhile]

/-- What satisfies the condition is skipped one character after the other.  Together with its
counterpart for a character that does not, this is the loop of skipping. -/
theorem skipWhile_of_current {p : Char → Bool} {c : Cursor} {ch : Char} (next : c.current = some ch)
    (skips : p ch = true) : c.skipWhile p = c.step.skipWhile p := by
  obtain ⟨rest, offset, location⟩ := c
  obtain ⟨rest, rfl⟩ := List.head?_eq_some_iff.mp next
  simp [skipWhile, step, drop, skips, Nat.add_assoc]

theorem skipWhile_of_not_current {p : Char → Bool} {c : Cursor}
    (stays : ∀ ch ∈ c.current, p ch = false) : c.skipWhile p = c := by
  obtain ⟨rest, offset, location⟩ := c
  cases rest with
  | nil => rfl
  | cons ch rest =>
      have stays : p ch = false := stays ch rfl
      simp [skipWhile, stays]

/-- Between a cursor and a later one lies what the later one has read more.  A lexeme is cut out
of the text that way. -/
theorem upTo_drop (c : Cursor) (n : Nat) : c.upTo (c.drop n) = c.rest.take n := by
  rw [upTo, drop, List.length_drop]
  rcases Nat.le_total n c.rest.length with le | le
  · rw [Nat.sub_sub_self le]
  · rw [Nat.sub_eq_zero_of_le le, Nat.sub_zero, List.take_length, List.take_of_length_le le]

/-- Offsets of a cursor that moves on can be sliced between, since both are boundaries and the
second is not in front of the first. -/
theorem Behind.slice?_drop {text front : Text} {c : Cursor} (behind : c.Behind text front)
    (n : Nat) : text.slice? c.offset (c.drop n).offset = some (c.upTo (c.drop n)) := by
  have later := behind.drop n
  rw [upTo_drop]
  refine Text.slice?_eq_some_iff.mpr ⟨front, (c.drop n).rest, ?_, behind.offset_eq.symm, ?_⟩
  · rw [← List.append_assoc]
    exact later.text_eq
  · exact later.offset_eq.symm

end Cursor

/-! ### Runs of a reader -/

namespace Reader

/-- What can be asked of a reader. -/
inductive Call where
  | step
  | skipWhile (p : Char → Bool)
  | seek (p : Char → Bool)
  | slice (start stop : Nat)
  | cut (start stop : Nat)

/-- The reader after a call.  It has moved after a search whether or not the search found
anything, and a slice leaves it alone. -/
def Call.perform (r : Reader) : Call → Reader
  | step => r.step
  | skipWhile p => r.skipWhile p
  | seek p => (r.seek p).2
  | slice _ _ => r
  | cut start stop => r.cut start stop

/-- The reader after some calls, one after the other. -/
def after (r : Reader) (calls : List Call) : Reader := calls.foldl Call.perform r

/-- The reader is another one that has moved on. -/
structure Continues (r later : Reader) : Prop where
  text_eq : later.text = r.text
  stage_eq : later.stage = r.stage
  moved : ∃ n, later.cursor = r.cursor.drop n

/-- Going on twice is going on.  Runs of calls are put together from single calls with this. -/
theorem Continues.trans {r later last : Reader} (first : r.Continues later)
    (second : later.Continues last) : r.Continues last := by
  obtain ⟨m, moved⟩ := first.moved
  obtain ⟨n, moved'⟩ := second.moved
  refine ⟨second.text_eq.trans first.text_eq, second.stage_eq.trans first.stage_eq, m + n, ?_⟩
  rw [moved', moved, Cursor.drop_drop]

theorem continues_refl (r : Reader) : r.Continues r :=
  ⟨rfl, rfl, 0, by simp [Cursor.drop]⟩

/-- No call goes back.  Each leaves the reader where it is or moves it on, and none exchanges the
text. -/
theorem Call.continues_perform (r : Reader) (call : Call) : r.Continues (call.perform r) := by
  cases call with
  | step => exact ⟨rfl, rfl, 1, rfl⟩
  | skipWhile p => exact ⟨rfl, rfl, _, Cursor.skipWhile_eq_drop p r.cursor⟩
  | seek p =>
      have sought := Cursor.skipWhile_eq_drop (fun ch => !p ch) r.cursor.step
      rw [Cursor.step, Cursor.drop_drop] at sought
      exact ⟨rfl, rfl, _, sought⟩
  | slice start stop => exact r.continues_refl
  | cut start stop =>
      show r.Continues (r.cut start stop)
      unfold Reader.cut
      split
      · exact ⟨rfl, rfl, r.continues_refl.moved⟩
      · exact r.continues_refl

/-- Any number of calls only leads on, by induction on the calls. -/
theorem continues_after (r : Reader) (calls : List Call) : r.Continues (r.after calls) := by
  induction calls generalizing r with
  | nil => exact r.continues_refl
  | cons call calls ih => exact (call.continues_perform r).trans (ih (call.perform r))

/-- The reader stands behind a beginning of its text. -/
def Sound (r : Reader) : Prop := ∃ front, r.cursor.Behind r.text front

theorem sound_ofText (text : Text) (stage : Stage) : (ofText text stage).Sound :=
  ⟨[], Cursor.behind_ofText text⟩

/-- A reader that goes on from a sound one is sound.  So it is enough that reading begins at the
start of the text. -/
theorem Continues.sound {r later : Reader} (on : r.Continues later) (sound : r.Sound) :
    later.Sound := by
  obtain ⟨front, behind⟩ := sound
  obtain ⟨n, moved⟩ := on.moved
  rw [Sound, on.text_eq, moved]
  exact ⟨_, behind.drop n⟩

/-- Whatever is asked of a reader, it stands behind a beginning of its text.  All that is said
about offsets and locations follows from this. -/
theorem exists_behind (text : Text) (stage : Stage) (calls : List Call) :
    ∃ front, ((ofText text stage).after calls).cursor.Behind text front := by
  have on := continues_after (ofText text stage) calls
  obtain ⟨front, behind⟩ := on.sound (sound_ofText text stage)
  rw [on.text_eq] at behind
  exact ⟨front, behind⟩

/-- A reader that has moved on finds between its old offset and its new one what it has read
in between. -/
theorem Continues.slice?_eq {r later : Reader} (on : r.Continues later) (sound : r.Sound) :
    later.slice? r.cursor.offset later.cursor.offset = some (r.cursor.upTo later.cursor) := by
  obtain ⟨front, behind⟩ := sound
  obtain ⟨n, moved⟩ := on.moved
  rw [slice?, on.text_eq, moved]
  exact behind.slice?_drop n

end Reader

end Pizzeria
