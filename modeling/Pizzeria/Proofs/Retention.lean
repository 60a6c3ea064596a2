import Pizzeria.Proofs.Boundaries

/-!
# What cuts leave

Leaving spans out of a text goes through them in order and keeps what lies between.  What is
kept can be said character by character: a character stays if no span covers the byte it begins
with.  The two agree for spans that overlap and for spans inside others, as long as the ends
of every span lie between characters.

## Main Definitions

* `Text.outside` — the characters that no span covers.
* `Text.placedFrom` — the characters of a text with their offsets.
* `Reader.Call.spans` — the spans that calls record.

## Main Results

* `Text.retainedFrom?_eq` — one sweep over spans in order keeps what no span covers.
* `Text.retained?_eq` — so does leaving spans out in whatever order they come.
* `Reader.cuts_after` — a reader has recorded what its calls asked for, and nothing else.
* `Reader.retained_exact` — what a reader retains, whatever it was asked.
-/

namespace Pizzeria

/-- The span has the byte at the offset in it. -/
def Span.covers (span : Span) (n : Nat) : Bool := span.start ≤ n && n < span.stop

/-- The span has bytes in it and its ends lie between characters of the text. -/
structure Span.Fits (text : Text) (span : Span) : Prop where
  proper : span.start < span.stop
  start : text.IsBoundary span.start
  stop : text.IsBoundary span.stop

namespace Text

/-- The characters that no span covers, of a text that begins at the offset `n`. -/
def outside (spans : List Span) (n : Nat) : Text → Text
  | [] => []
  | c :: cs =>
      if spans.any (·.covers n) then outside spans (n + c.utf8Size) cs
      else c :: outside spans (n + c.utf8Size) cs

theorem outside_append (spans : List Span) (n : Nat) (t u : Text) :
    outside spans n (t ++ u) = outside spans n t ++ outside spans (n + t.byteLength) u := by
  induction t generalizing n with
  | nil => rfl
  | cons c t ih =>
      rw [List.cons_append, outside, outside, ih, byteLength_cons, Nat.add_assoc]
      split <;> rfl

/-- Spans that cover the same bytes of a text leave the same of it.  Spans can be cut up or
merged, as long as what they cover stays. -/
theorem outside_congr {spans spans' : List Span} {n : Nat} {t : Text}
    (same : ∀ m, n ≤ m → m < n + t.byteLength →
      spans.any (·.covers m) = spans'.any (·.covers m)) :
    outside spans n t = outside spans' n t := by
  induction t generalizing n with
  | nil => rfl
  | cons c t ih =>
      have positive := c.utf8Size_pos
      rw [byteLength_cons] at same
      have rest : outside spans (n + c.utf8Size) t = outside spans' (n + c.utf8Size) t :=
        ih fun m behind within => same m (by omega) (by omega)
      rw [outside, outside, rest, same n (Nat.le_refl n) (by omega)]

@[simp] theorem outside_nil (n : Nat) (t : Text) : outside [] n t = t := by
  induction t generalizing n with
  | nil => rfl
  | cons c t ih => simp [outside, ih]

/-- A text that every span misses is kept, whole and in order. -/
theorem outside_of_clear {spans : List Span} {n : Nat} {t : Text}
    (clear : ∀ span ∈ spans, span.stop ≤ n ∨ n + t.byteLength ≤ span.start) :
    outside spans n t = t := by
  have same : outside spans n t = outside [] n t := by
    refine outside_congr fun m behind within => ?_
    rw [List.any_nil, List.any_eq_false]
    intro span mem
    have missed := clear span mem
    simp only [Span.covers, Bool.and_eq_true, decide_eq_true_eq]
    omega
  rw [same, outside_nil]

/-- A text inside a span is dropped, whatever the other spans do. -/
theorem outside_of_mem {spans : List Span} {span : Span} (mem : span ∈ spans) {n : Nat} {t : Text}
    (start : span.start ≤ n) (stop : n + t.byteLength ≤ span.stop) : outside spans n t = [] := by
  induction t generalizing n with
  | nil => rfl
  | cons c t ih =>
      have positive := c.utf8Size_pos
      rw [byteLength_cons] at stop
      have covered : spans.any (·.covers n) = true := by
        refine List.any_eq_true.mpr ⟨span, mem, ?_⟩
        simp only [Span.covers, Bool.and_eq_true, decide_eq_true_eq]
        omega
      rw [outside, if_pos covered]
      exact ih (by omega) (by omega)

/-- A span that ends in front of a text does not matter to it.  The loop forgets such spans. -/
theorem outside_cons_of_le {span : Span} {n : Nat} (stop : span.stop ≤ n) (spans : List Span)
    (t : Text) : outside (span :: spans) n t = outside spans n t := by
  refine outside_congr fun m behind _ => ?_
  have missed : span.covers m = false := by
    simp only [Span.covers, Bool.and_eq_false_iff, decide_eq_false_iff_not]
    omega
  rw [List.any_cons, missed, Bool.false_or]

/-- Only the spans matter, not their order.  So they may be sorted first, as the loop does. -/
theorem outside_perm {spans spans' : List Span} (perm : spans.Perm spans') (n : Nat) (t : Text) :
    outside spans n t = outside spans' n t :=
  outside_congr fun _ _ _ => perm.any_eq

/-- A text behind every span is kept.  This is the last piece that the loop takes. -/
theorem outside_append_of_le {spans : List Span} {front : Text}
    (passed : ∀ span ∈ spans, span.stop ≤ front.byteLength) (t : Text) :
    outside spans 0 (front ++ t) = outside spans 0 front ++ t := by
  rw [outside_append, Nat.zero_add, outside_of_clear fun span mem => Or.inl (passed span mem)]

/-- One more span drops the text in it and nothing in front of it.  A reader that notes spans as
it goes on adds them in this way. -/
theorem outside_concat_span (spans : List Span) (front note : Text) :
    outside (spans ++ [⟨front.byteLength, (front ++ note).byteLength⟩]) 0 (front ++ note) =
      outside spans 0 front := by
  have hidden : outside (spans ++ [⟨front.byteLength, (front ++ note).byteLength⟩])
      (0 + front.byteLength) note = [] := by
    refine outside_of_mem List.mem_concat_self (Nat.le_of_eq (Nat.zero_add _).symm) ?_
    rw [Nat.zero_add, byteLength_append]
  rw [outside_append, hidden, List.append_nil]
  refine outside_congr fun m _ within => ?_
  have missed : Span.covers ⟨front.byteLength, (front ++ note).byteLength⟩ m = false := by
    simp only [Span.covers, Bool.and_eq_false_iff, decide_eq_false_iff_not]
    omega
  rw [List.any_append, List.any_cons, missed, List.any_nil, Bool.or_false, Bool.or_false]

/-! ### Characters and their offsets -/

/-- The characters of a text that begins at the offset `n`, each with the offset at which it
begins itself. -/
def placedFrom (n : Nat) : Text → List (Nat × Char)
  | [] => []
  | c :: cs => (n, c) :: placedFrom (n + c.utf8Size) cs

/-- The same, by the offset of each character: what is left are the characters whose offsets no
span covers. -/
theorem outside_eq_filter (spans : List Span) (n : Nat) (t : Text) :
    outside spans n t =
      ((placedFrom n t).filter fun place => !spans.any (·.covers place.1)).map Prod.snd := by
  induction t generalizing n with
  | nil => rfl
  | cons c t ih =>
      rw [outside, placedFrom, List.filter_cons, ih]
      cases spans.any (·.covers n) <;> rfl

/-! ### The sweep -/

theorem retainedFrom?_cons (text : Text) (reached : Nat) (span : Span) (spans : List Span) :
    text.retainedFrom? reached (span :: spans) =
      (if reached < span.start then text.slice? reached span.start else some []).bind fun kept =>
        (text.retainedFrom? (max reached span.stop) spans).map (kept ++ ·) := by
  rw [retainedFrom?]
  split <;> cases text.retainedFrom? (max reached span.stop) spans <;> rfl

/-- In front of a span, what no earlier one has covered is kept, since no later one begins
there. -/
theorem exists_kept {front back : Text} {span : Span} {spans : List Span}
    (fit : span.Fits (front ++ back)) (first : ∀ s ∈ spans, span.start ≤ s.start) :
    ∃ kept left, back = kept ++ left ∧ span.start ≤ (front ++ kept).byteLength ∧
      (if front.byteLength < span.start then (front ++ back).slice? front.byteLength span.start
        else some []) = some kept ∧
      max front.byteLength span.stop = max (front ++ kept).byteLength span.stop ∧
      outside (span :: spans) front.byteLength back =
        kept ++ outside (span :: spans) (front ++ kept).byteLength left := by
  by_cases gap : front.byteLength < span.start
  · obtain ⟨front', left, same, length⟩ := fit.start
    obtain ⟨kept, rfl, rfl⟩ := exists_append_of_byteLength_le same (by omega)
    have proper := fit.proper
    have clear : outside (span :: spans) front.byteLength kept = kept := by
      rw [byteLength_append] at length
      refine outside_of_clear fun s mem => Or.inr ?_
      rcases List.mem_cons.mp mem with rfl | mem
      · exact Nat.le_of_eq length
      · exact length ▸ first s mem
    refine ⟨kept, left, rfl, Nat.le_of_eq length.symm, ?_, by omega, ?_⟩
    · rw [if_pos gap]
      exact slice?_eq_some_iff.mpr ⟨front, left, rfl, rfl, length⟩
    · rw [outside_append, clear, byteLength_append]
  · refine ⟨[], back, rfl, ?_, if_neg gap, ?_, ?_⟩
    · rw [List.append_nil]
      exact Nat.le_of_not_lt gap
    · rw [List.append_nil]
    · rw [List.append_nil, List.nil_append]

/-- Behind the beginning of a span, what it covers is dropped, and it does not matter to what
follows. -/
theorem exists_hidden {front back : Text} {span : Span} (started : span.start ≤ front.byteLength)
    (boundary : (front ++ back).IsBoundary span.stop) (spans : List Span) :
    ∃ hidden left, back = hidden ++ left ∧
      max front.byteLength span.stop = (front ++ hidden).byteLength ∧
      outside (span :: spans) front.byteLength back =
        outside spans (front ++ hidden).byteLength left := by
  rcases Nat.le_total span.stop front.byteLength with passed | ahead
  · refine ⟨[], back, rfl, ?_, ?_⟩
    · rw [List.append_nil, Nat.max_eq_left passed]
    · rw [List.append_nil]
      exact outside_cons_of_le passed spans back
  · obtain ⟨front', left, same, length⟩ := boundary
    obtain ⟨hidden, rfl, rfl⟩ := exists_append_of_byteLength_le same (length ▸ ahead)
    have stop : front.byteLength + hidden.byteLength = span.stop := by
      rw [← length, byteLength_append]
    refine ⟨hidden, left, rfl, ?_, ?_⟩
    · rw [length, Nat.max_eq_right ahead]
    · rw [outside_append, outside_of_mem List.mem_cons_self started (Nat.le_of_eq stop),
        List.nil_append, stop, length]
      exact outside_cons_of_le (Nat.le_refl _) spans left

/-- One sweep over spans in the order of their beginnings keeps what no span covers.  The
induction is on the spans that are left; what lies behind `front` is what no span before
them covers. -/
theorem retainedFrom?_eq {front back : Text} {spans : List Span}
    (sorted : spans.Pairwise fun a b => a.start ≤ b.start)
    (fits : ∀ span ∈ spans, span.Fits (front ++ back)) :
    (front ++ back).retainedFrom? front.byteLength spans =
      some (outside spans front.byteLength back) := by
  induction spans generalizing front back with
  | nil =>
      rw [retainedFrom?, outside_nil]
      refine slice?_eq_some_iff.mpr ⟨front, [], ?_, rfl, rfl⟩
      rw [List.append_nil]
  | cons span spans ih =>
      obtain ⟨first, sorted⟩ := List.pairwise_cons.mp sorted
      have fit := fits span List.mem_cons_self
      have others : ∀ s ∈ spans, s.Fits (front ++ back) :=
        fun s mem => fits s (List.mem_cons_of_mem span mem)
      obtain ⟨kept, left, rfl, started, sliced, reached, outer⟩ := exists_kept fit first
      rw [retainedFrom?_cons, sliced, reached, outer]
      have stop := fit.stop
      rw [← List.append_assoc] at stop others ⊢
      obtain ⟨hidden, left, rfl, reached, inner⟩ := exists_hidden started stop spans
      rw [← List.append_assoc] at others ⊢
      rw [reached, inner, ih sorted others]
      rfl

theorem pairwise_start_mergeSort (spans : List Span) :
    (spans.mergeSort fun a b => a.start ≤ b.start).Pairwise fun a b => a.start ≤ b.start := by
  have trans (a b c : Span) : decide (a.start ≤ b.start) = true →
      decide (b.start ≤ c.start) = true → decide (a.start ≤ c.start) = true := by
    simp only [decide_eq_true_eq]
    exact Nat.le_trans
  have total (a b : Span) : (decide (a.start ≤ b.start) || decide (b.start ≤ a.start)) = true := by
    simp only [Bool.or_eq_true, decide_eq_true_eq]
    exact Nat.le_total a.start b.start
  exact (List.pairwise_mergeSort trans total spans).imp of_decide_eq_true

/-- Leaving spans out of a text leaves what no span covers, whatever the order of the spans.  They
may overlap, and touch each other. -/
theorem retained?_eq {text : Text} {spans : List Span} (fits : ∀ span ∈ spans, span.Fits text) :
    text.retained? spans = some (text.outside spans 0) := by
  let sorted := spans.mergeSort fun a b => a.start ≤ b.start
  have perm : sorted.Perm spans := List.mergeSort_perm spans _
  have fits : ∀ span ∈ sorted, span.Fits ([] ++ text) :=
    fun span mem => fits span (perm.mem_iff.mp mem)
  have swept := retainedFrom?_eq (pairwise_start_mergeSort spans) fits
  rw [← outside_perm perm]
  exact swept

end Text

/-! ### Readers -/

namespace Reader

/-- The span that a call records; a cut without bytes in it records none. -/
def Call.span? : Call → Option Span
  | cut start stop => if start < stop then some ⟨start, stop⟩ else none
  | step | skipWhile _ | seek _ | slice _ _ => none

/-- The spans that calls record, in the order of the calls. -/
def Call.spans (calls : List Call) : List Span := calls.filterMap Call.span?

/-- A call adds its span to those that were noted, if it notes one. -/
theorem Call.cuts_perform (r : Reader) (call : Call) :
    (call.perform r).cuts = r.cuts ++ call.span?.toList := by
  cases call with
  | cut start stop =>
      show (r.cut start stop).cuts = _
      rw [Reader.cut, Call.span?]
      split
      · rfl
      · exact (List.append_nil _).symm
  | step | skipWhile | seek | slice => exact (List.append_nil _).symm

/-- The spans that were noted are those of the calls, in the order of the calls. -/
theorem cuts_after (r : Reader) (calls : List Call) :
    (r.after calls).cuts = r.cuts ++ Call.spans calls := by
  induction calls generalizing r with
  | nil => exact (List.append_nil _).symm
  | cons call calls ih =>
      have first : (r.after (call :: calls)).cuts = (call.perform r).cuts ++ Call.spans calls :=
        ih (call.perform r)
      rw [first, call.cuts_perform, List.append_assoc, Call.spans, Call.spans]
      cases span : call.span? with
      | none => rw [List.filterMap_cons_none span, Option.toList_none, List.nil_append]
      | some s => rw [List.filterMap_cons_some span, Option.toList_some, List.singleton_append]

/-- A span that is noted is not empty.  An empty one is not worth noting, and is dropped at
once. -/
theorem Call.lt_of_mem_spans {calls : List Call} {span : Span} (mem : span ∈ Call.spans calls) :
    span.start < span.stop := by
  obtain ⟨call, -, recorded⟩ := List.mem_filterMap.mp mem
  cases call with
  | cut start stop =>
      rw [Call.span?, Option.ite_none_right_eq_some] at recorded
      obtain ⟨proper, same⟩ := recorded
      cases same
      exact proper
  | step | skipWhile | seek | slice => cases recorded

/-- Whatever else a reader is asked, its cuts leave what none of them covers.  Moving about in the
text does not disturb what was noted. -/
theorem retained?_after {text : Text} (stage : Stage) {calls : List Call}
    (boundaries : ∀ span ∈ Call.spans calls,
      text.IsBoundary span.start ∧ text.IsBoundary span.stop) :
    ((ofText text stage).after calls).retained? = some (text.outside (Call.spans calls) 0) := by
  have cuts : ((ofText text stage).after calls).cuts = Call.spans calls :=
    cuts_after (ofText text stage) calls
  rw [retained?, cuts, (continues_after _ calls).text_eq]
  refine Text.retained?_eq fun span mem => ?_
  obtain ⟨start, stop⟩ := boundaries span mem
  exact ⟨Call.lt_of_mem_spans mem, start, stop⟩

/-- **Cuts leave exactly what none of them covers.**  Whatever a reader is asked, if the spans
that it records begin and end between characters, then what is retained are the characters, in
order, whose byte offset lies in none of these spans.  So neither the order of the cuts nor
their repetition matters: calls that record the same spans retain the same text. -/
theorem retained_exact (text : Text) (stage : Stage) (calls : List Call)
    (boundaries : ∀ span ∈ Call.spans calls,
      text.IsBoundary span.start ∧ text.IsBoundary span.stop) :
    ((ofText text stage).after calls).retained? =
        some (((text.placedFrom 0).filter fun place =>
          !(Call.spans calls).any (·.covers place.1)).map Prod.snd) ∧
      ∀ others, (∀ span, span ∈ Call.spans others ↔ span ∈ Call.spans calls) →
        ((ofText text stage).after others).retained? =
          ((ofText text stage).after calls).retained? := by
  constructor
  · rw [retained?_after stage boundaries, Text.outside_eq_filter]
  · intro others same
    have boundaries' : ∀ span ∈ Call.spans others,
        text.IsBoundary span.start ∧ text.IsBoundary span.stop :=
      fun span mem => boundaries span ((same span).mp mem)
    rw [retained?_after stage boundaries, retained?_after stage boundaries']
    refine congrArg some (Text.outside_congr fun m _ _ => ?_)
    rw [Bool.eq_iff_iff, List.any_eq_true, List.any_eq_true]
    exact exists_congr fun span => and_congr_left fun _ => same span

/-- Cuts that overlap, lie in one another, come twice, come out of order or are empty, among
other calls, in a text with characters of two and three bytes. -/
theorem retained_exact_overlapping :
    let text : Text := ['é', '#', 'x', '\n', '€', 'b', 'c']
    let calls : List Call :=
      [.cut 4 9, .step, .cut 2 8, .cut 3 4, .cut 7 6, .slice 0 2, .cut 4 9]
    Call.spans calls = [⟨4, 9⟩, ⟨2, 8⟩, ⟨3, 4⟩, ⟨4, 9⟩] ∧
      ((ofText text .preprocessing).after calls).retained? = some ['é', 'c'] :=
  ⟨rfl, (retained_exact _ _ _ (by decide)).1⟩

end Reader

end Pizzeria
