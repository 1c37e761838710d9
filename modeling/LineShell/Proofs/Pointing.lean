import LineShell.Proofs.Closing

namespace LineShell

/-! Where the carets of a snippet stand.

A snippet shows a line around a span, and below it a caret for every character of the span, or
one if there is none. A refused line is refused for one of its tokens, and the text of that
token is what has carets under it.
-/

open Statement (ofTokens)
open Token (scan)

/-- A place in a line and one that is not before it have a text between them. -/
theorem Text.RestAt.exists_between {line rest behind : Text} {start stop : Nat}
    (starts : line.RestAt start rest) (stops : line.RestAt stop behind) (ordered : start ≤ stop) :
    ∃ between, rest = between ++ behind ∧ stop = start + between.byteSize := by
  obtain ⟨left, whole, rfl⟩ := starts
  obtain ⟨front, again, rfl⟩ := stops
  rcases List.append_eq_append_iff.mp (again.trans whole.symm) with
    ⟨beyond, rfl, cut⟩ | ⟨between, rfl, cut⟩
  · -- Nothing is beyond a front that is no shorter.
    cases beyond with
    | nil => exact ⟨[], by simpa using cut.symm, by simp⟩
    | cons c beyond =>
        have positive := byteSize_pos (List.cons_ne_nil c beyond)
        rw [byteSize_append] at ordered
        omega
  · exact ⟨between, cut, byteSize_append left between⟩

namespace Span

variable {span : Span} {line left spanned right : Text}

/-- The span moved into the line. It starts at the end of the line if it started behind it, and
it is empty if it ended before its start. -/
def within (span : Span) (line : Text) : Span where
  start := min span.start line.byteSize
  stop := max (min span.start line.byteSize) (min span.stop line.byteSize)

/-- The ends of the span, moved into the line, are places between its characters. -/
structure Fits (span : Span) (line : Text) : Prop where
  start : ∃ rest, line.RestAt (span.within line).start rest
  stop : ∃ rest, line.RestAt (span.within line).stop rest

/-- The parts of a line before, in and after a span. -/
structure Parts (span : Span) (line left spanned right : Text) : Prop where
  whole : line = left ++ (spanned ++ right)
  start : left.byteSize = (span.within line).start
  stop : left.byteSize + spanned.byteSize = (span.within line).stop

theorem Fits.exists_parts (fits : span.Fits line) :
    ∃ left spanned right, span.Parts line left spanned right := by
  obtain ⟨⟨rest, starts⟩, ⟨right, stops⟩⟩ := fits
  have ordered : (span.within line).start ≤ (span.within line).stop := Nat.le_max_left _ _
  obtain ⟨spanned, rfl, stop⟩ := starts.exists_between stops ordered
  obtain ⟨left, whole, start⟩ := starts
  exact ⟨left, spanned, right, whole.symm, start, by rw [start, stop]⟩

/-- A span with its ends in the line stays where it is. -/
theorem parts_of_whole (whole : line = left ++ (spanned ++ right))
    (start : left.byteSize = span.start) (stop : left.byteSize + spanned.byteSize = span.stop) :
    span.Parts line left spanned right := by
  obtain ⟨first, last⟩ := span
  obtain ⟨rfl, rfl⟩ : left.byteSize = first ∧ left.byteSize + spanned.byteSize = last :=
    ⟨start, stop⟩
  constructor
  case whole => exact whole
  all_goals
    simp only [within, whole, Text.byteSize_append]
    omega

theorem splitAt_byteSize (left right : Text) :
    cut.splitAt left.byteSize (left ++ right) = (left, right) := by
  induction left with
  | nil =>
      cases right with
      | nil => rfl
      | cons c right =>
          have wide : ¬ c.utf8Size ≤ 0 := Nat.not_le.mpr c.utf8Size_pos
          simp [cut.splitAt, wide]
  | cons c left ih => simp [cut.splitAt, ih]

theorem Parts.cut_eq (parts : span.Parts line left spanned right) :
    span.cut line = ⟨left, spanned, right⟩ := by
  have start : min span.start line.byteSize = left.byteSize := parts.start.symm
  have stop : max left.byteSize (min span.stop line.byteSize) - left.byteSize =
      spanned.byteSize := by
    have whole : left.byteSize + spanned.byteSize = max _ (min span.stop line.byteSize) :=
      parts.stop
    rw [start] at whole
    omega
  simp only [cut, start, stop]
  rw [parts.whole, splitAt_byteSize]
  simp only [splitAt_byteSize]

end Span

/-- A text with marks below it. -/
structure Rows where
  shown : Text
  marks : Text

namespace Rows

def text (rows : Rows) : Text := rows.shown ++ '\n' :: rows.marks

/-- The last line of a text is taken for the marks. What is shown may have newlines itself. -/
def ofText (text : Text) : Rows where
  shown := (text.reverse.dropWhile (· ≠ '\n')).tail.reverse
  marks := (text.reverse.takeWhile (· ≠ '\n')).reverse

/-- The characters that have a caret under them. -/
def marked (rows : Rows) : Text :=
  ((rows.shown.zip rows.marks).filter (·.2 = '^')).map Prod.fst

theorem ofText_text {rows : Rows} (single : '\n' ∉ rows.marks) : ofText rows.text = rows := by
  have marks : ∀ c ∈ rows.marks.reverse, decide (c ≠ '\n') = true := by
    intro c member
    have other : c ≠ '\n' := by
      rintro rfl
      exact single (List.mem_reverse.mp member)
    exact decide_eq_true other
  have reversed : rows.text.reverse = rows.marks.reverse ++ '\n' :: rows.shown.reverse := by
    simp [text]
  rw [ofText, reversed, List.dropWhile_append_of_pos marks, List.takeWhile_append_of_pos marks]
  simp

theorem filter_zip_replicate (text : Text) (mark : Char) :
    (text.zip (List.replicate text.length mark)).filter (·.2 = '^') =
      if mark = '^' then text.zip (List.replicate text.length mark) else [] := by
  have below : ∀ pair ∈ text.zip (List.replicate text.length mark), pair.2 = mark :=
    fun pair member => List.eq_of_mem_replicate (List.of_mem_zip member).2
  split
  · next caret =>
      exact List.filter_eq_self.mpr fun pair member => by simp [below pair member, caret]
  · next other =>
      exact List.filter_eq_nil_iff.mpr fun pair member => by simp [below pair member, other]

/-- Carets behind as many spaces as there are characters before a text mark that text. -/
theorem marked_carets (before spanned after : Text) :
    marked ⟨before ++ (spanned ++ after),
      List.replicate before.length ' ' ++ List.replicate spanned.length '^'⟩ = spanned := by
  have beside : (spanned ++ after).zip (List.replicate spanned.length '^') =
      spanned.zip (List.replicate spanned.length '^') := by
    rw [← List.append_nil (List.replicate spanned.length '^'), List.zip_append (by simp)]
    simp
  rw [marked, List.zip_append (by simp), beside, List.filter_append, filter_zip_replicate,
    filter_zip_replicate, if_neg (by decide), if_pos rfl, List.nil_append,
    List.map_fst_zip (by simp)]

end Rows

namespace Span

variable {span : Span} {line left spanned right : Text}

theorem Parts.snippet_eq (parts : span.Parts line left spanned right) (context : Nat) :
    span.snippet line context =
      Rows.text ⟨left.drop (left.length - context) ++ (spanned ++ right.take (context + 1)),
        List.replicate (left.drop (left.length - context)).length ' ' ++
          List.replicate (max 1 spanned.length) '^'⟩ := by
  simp [snippet, parts.cut_eq, Rows.text]

theorem Parts.marked_snippet (parts : span.Parts line left spanned right)
    (something : spanned ≠ []) (context : Nat) :
    (Rows.ofText (span.snippet line context)).marked = spanned := by
  have length : max 1 spanned.length = spanned.length :=
    Nat.max_eq_right (List.length_pos_iff.mpr something)
  rw [parts.snippet_eq, Rows.ofText_text, length, Rows.marked_carets]
  simp

end Span

/-- The line is refused for the token where the cursor stands: for what is wrong with it, or
because it is an operator without a command behind it. -/
inductive Cursor.Blamed (cursor : Cursor) : Defect → Prop where
  | faulty {defect : Defect} (faulty : cursor.Faulty defect) : Blamed cursor defect
  | dangling (operator : Operator) (kind : cursor.token.kind = .operator operator)
      (last : cursor.isLast = true) : Blamed cursor (.dangling operator cursor.token.span)

theorem Cursor.Blamed.span_eq {cursor : Cursor} {defect : Defect}
    (blamed : cursor.Blamed defect) : defect.span = cursor.token.span := by
  cases blamed with
  | faulty faulty => exact faulty.span_eq
  | dangling => rfl

open Statement in
theorem exists_blamed {tokens : List Token} {defect : Defect}
    (refused : ofTokens tokens = .error defect) :
    ∃ cursor ∈ Cursor.all tokens, cursor.Blamed defect := by
  rcases sound_or_refused .start tokens with
    ⟨sound, -⟩ | ⟨cursor, member, other, faulty, run⟩
  · -- No token is wrong, so the reason is how the line ends.
    obtain ⟨dangling, accepted⟩ := ofTokens_of_sound fun index cursor here =>
      sound cursor (List.mem_of_getElem? here)
    rcases List.eq_nil_or_concat tokens with rfl | ⟨earlier, last, rfl⟩
    · cases refused
    rw [List.concat_eq_append] at *
    cases kind : last.kind with
    | operator operator =>
        have same := dangling last operator (by simp) kind
        obtain rfl := Except.error.inj (same.symm.trans refused)
        obtain ⟨front, all⟩ := Cursor.exists_allFrom_concat [] earlier last
        exact ⟨⟨earlier.reverse ++ [], last, []⟩, by simp [Cursor.all, all],
          .dangling operator kind rfl⟩
    | word | brokenOperator =>
        obtain ⟨statements, read⟩ := accepted fun token ended => by
          obtain rfl : last = token := by simpa using ended
          simp [Token.isOperator, Token.operator?, kind]
        rw [read] at refused
        cases refused
  · have same := run []
    rw [List.append_nil] at same
    obtain rfl := Except.error.inj (same.symm.trans refused)
    exact ⟨cursor, member, .faulty faulty⟩

theorem Layout.exists_place {tokens : List Token} {line : Text} {token : Token}
    (layout : Layout 0 line tokens) (member : token ∈ tokens) :
    token.raw ≠ [] ∧ ∃ left right, line = left ++ (token.raw ++ right) ∧
      left.byteSize = token.span.start ∧
      left.byteSize + token.raw.byteSize = token.span.stop := by
  obtain ⟨place, rest, read, left, whole, start⟩ := layout.placed (.whole line) token member
  rw [read.span_eq]
  exact ⟨read.raw_ne_nil, left, rest, whole.symm, start, by rw [start]⟩

/-- A snippet shows as much of the line around the span as it is asked for, and has its carets
under the characters of the span. So the carets for a refused line are under the text of the
token that it is refused for. -/
theorem carets_stand_under_the_span :
    (∀ (span : Span) (line : Text) (context : Nat), span.Fits line →
      ∃ left spanned right, span.Parts line left spanned right ∧
      ∃ before after, before <:+ left ∧ before.length = min context left.length ∧
        after <+: right ∧ after.length = min (context + 1) right.length ∧
        span.snippet line context = Rows.text ⟨before ++ (spanned ++ after),
          List.replicate before.length ' ' ++ List.replicate (max 1 spanned.length) '^'⟩) ∧
    ∀ (line : Text) (defect : Defect), ofTokens (scan line) = .error defect →
      ∃ cursor ∈ Cursor.all (scan line), cursor.Blamed defect ∧ ∀ context,
        (Rows.ofText (defect.snippet line context)).marked = cursor.token.raw := by
  constructor
  · intro span line context fits
    obtain ⟨left, spanned, right, parts⟩ := fits.exists_parts
    refine ⟨left, spanned, right, parts, _, _, List.drop_suffix (left.length - context) left, ?_,
      List.take_prefix (context + 1) right, List.length_take, parts.snippet_eq context⟩
    rw [List.length_drop]
    omega
  · intro line defect refused
    obtain ⟨cursor, member, blamed⟩ := exists_blamed refused
    have among := Cursor.mem_iff_exists_token.mpr ⟨cursor, member, rfl⟩
    obtain ⟨something, left, right, whole, start, stop⟩ := (layout_scan line).exists_place among
    refine ⟨cursor, member, blamed, fun context => ?_⟩
    rw [Defect.snippet, blamed.span_eq]
    exact (Span.parts_of_whole whole start stop).marked_snippet something context

theorem caret_stands_behind_a_short_line :
    Span.Fits ⟨9, 4⟩ ['é', 'x'] ∧
    (∃ left spanned right, Span.Parts ⟨9, 4⟩ ['é', 'x'] left spanned right ∧
      ∃ before after, before <:+ left ∧ before.length = min 1 left.length ∧
        after <+: right ∧ after.length = min 2 right.length ∧
        Span.snippet ⟨9, 4⟩ ['é', 'x'] 1 = Rows.text ⟨before ++ (spanned ++ after),
          List.replicate before.length ' ' ++ List.replicate (max 1 spanned.length) '^'⟩) ∧
    ofTokens (scan ['é', '\n', '&', '&', '|', '|', 'x']) = .error (.missingCommand .or ⟨5, 7⟩) ∧
    ∃ cursor ∈ Cursor.all (scan ['é', '\n', '&', '&', '|', '|', 'x']),
      cursor.Blamed (.missingCommand .or ⟨5, 7⟩) ∧ ∀ context,
        (Rows.ofText (Defect.snippet (.missingCommand .or ⟨5, 7⟩)
          ['é', '\n', '&', '&', '|', '|', 'x'] context)).marked = cursor.token.raw := by
  have fits : Span.Fits ⟨9, 4⟩ ['é', 'x'] :=
    ⟨⟨[], ['é', 'x'], rfl, by decide⟩, ⟨[], ['é', 'x'], rfl, by decide⟩⟩
  have refused : ofTokens (scan ['é', '\n', '&', '&', '|', '|', 'x']) =
      .error (.missingCommand .or ⟨5, 7⟩) := by
    have scanned : scan ['é', '\n', '&', '&', '|', '|', 'x'] =
        [⟨.word, ['é'], ['é'], none, true, ⟨0, 2⟩⟩,
          ⟨.operator .and, ['&', '&'], ['&', '&'], none, true, ⟨3, 5⟩⟩,
          ⟨.operator .or, ['|', '|'], ['|', '|'], none, true, ⟨5, 7⟩⟩,
          ⟨.word, ['x'], ['x'], none, true, ⟨7, 8⟩⟩] := by decide +kernel
    rw [scanned]
    rfl
  exact ⟨fits, carets_stand_under_the_span.1 _ _ 1 fits, refused,
    carets_stand_under_the_span.2 _ _ refused⟩

end LineShell
