import LineShell.Highlight
import LineShell.Proofs.Layout

namespace LineShell

/-! Lines that become longer.

More text at the end of a line reaches only its last token, and not even that one if
something stands behind it. What is shown of the line up to there stays as it is.
-/

open Token (scanFrom)

namespace Layout

variable {start : Nat} {text line : Text} {tokens : List Token}

theorem exists_grown (layout : Layout start text tokens) (here : line.RestAt start text)
    (something : tokens ≠ []) (more : Text) :
    ∃ earlier last grown later, tokens = earlier ++ [last] ∧
      scanFrom start (text ++ more) = earlier ++ grown :: later ∧
      grown.span.start = last.span.start ∧
      (Cursor.trailing tokens line ≠ [] → grown = last) := by
  induction layout with
  | ending => exact absurd rfl something
  | @token start blanks token rest tokens read onward ih =>
      have behind := read.restAt here.skip
      rw [List.append_assoc, Token.scanFrom_blanks, List.append_assoc]
      cases tokens with
      | nil =>
          rw [Cursor.trailing_singleton behind]
          by_cases touched : rest = []
          -- The new text may be read into the token, but that still begins here.
          · obtain ⟨grown, later, found, place⟩ := read.exists_scanFrom (rest ++ more)
            refine ⟨[], token, grown, later, rfl, found, ?_, fun apart => absurd touched apart⟩
            rw [place, read.span_eq]
          · exact ⟨[], token, token, _, rfl, read.scanFrom_append touched more, rfl, fun _ => rfl⟩
      | cons next tokens =>
          have continued := onward.ne_nil
          obtain ⟨earlier, last, grown, later, found, longer, place, same⟩ :=
            ih behind (List.cons_ne_nil next tokens)
          refine ⟨token :: earlier, last, grown, later, congrArg _ found, ?_, place, ?_⟩
          · rw [read.scanFrom_append continued, longer]
            rfl
          · rwa [Cursor.trailing_cons token (List.cons_ne_nil next tokens)]

/-- The blanks at the front of a line stay there. -/
theorem leading_append {token : Token} (layout : Layout 0 line (token :: tokens)) (more : Text)
    {token' : Token} (place : token'.span.start = token.span.start) (tokens' : List Token) :
    Cursor.leading (token' :: tokens') (line ++ more) = Cursor.leading (token :: tokens) line := by
  obtain ⟨blanks, found, longer⟩ := layout.exists_blanks (.whole line)
  rw [Cursor.leading, Cursor.leading, place, found, longer]

end Layout

theorem Token.exists_grown {line : Text} {last : Token}
    (ended : (scan line).getLast? = some last) (more : Text) :
    ∃ earlier grown later, scan line = earlier ++ [last] ∧
      scan (line ++ more) = earlier ++ grown :: later ∧ grown.span.start = last.span.start ∧
      (Cursor.trailing (scan line) line ≠ [] → grown = last) := by
  have something : scan line ≠ [] := fun nothing => by simp [nothing] at ended
  obtain ⟨earlier, last', grown, later, tokens, longer, place, same⟩ :=
    (layout_scan line).exists_grown (.whole line) something more
  obtain rfl : last' = last := by
    rw [tokens] at ended
    simpa using ended
  exact ⟨earlier, grown, later, tokens, longer, place, same⟩

namespace Segment

theorem joined_append (left right : List Segment) :
    joined (left ++ right) = joined left ++ joined right :=
  List.flatMap_append

theorem joined_ofText (style : Style) (text : Text) : joined (ofText style text) = text := by
  cases text <;> simp [ofText, joined]

theorem joined_ofTrailing (text : Text) : joined (ofTrailing text) = text := by
  rw [ofTrailing, joined_append, joined_ofText, joined_ofText, List.takeWhile_append_dropWhile]

theorem joined_ofToken (catalog : Catalog) (cursor : Cursor) :
    joined (ofToken catalog cursor) = cursor.token.raw := by
  unfold ofToken
  split
  · rw [joined_append, joined_ofText, joined_ofText, List.take_append_drop]
  · exact joined_ofText _ _

/-- No segment is empty. -/
def Solid (segments : List Segment) : Prop := ∀ segment ∈ segments, segment.text ≠ []

theorem Solid.append {left right : List Segment} (first : Solid left) (second : Solid right) :
    Solid (left ++ right) := by
  intro segment member
  rcases List.mem_append.mp member with member | member
  · exact first segment member
  · exact second segment member

theorem solid_ofText (style : Style) (text : Text) : Solid (ofText style text) := by
  intro segment member
  cases text with
  | nil => simp [ofText] at member
  | cons c rest =>
      obtain rfl : segment = ⟨style, c :: rest⟩ := by simpa [ofText] using member
      exact List.cons_ne_nil c rest

theorem solid_ofTrailing (text : Text) : Solid (ofTrailing text) :=
  (solid_ofText _ _).append (solid_ofText _ _)

theorem solid_ofToken (catalog : Catalog) (cursor : Cursor) : Solid (ofToken catalog cursor) := by
  unfold ofToken
  split
  · exact (solid_ofText _ _).append (solid_ofText _ _)
  · exact solid_ofText _ _

/-- Segments that do not reach farther than those before `rest` are among them. -/
theorem prefix_of_byteSize_le {segments known rest : List Segment}
    (first : segments <+: known ++ rest) (solid : Solid rest)
    (bounded : (joined segments).byteSize ≤ (joined known).byteSize) : segments <+: known := by
  rcases List.prefix_or_prefix_of_prefix first (List.prefix_append known rest) with
    within | ⟨extra, rfl⟩
  · exact within
  · cases extra with
    | nil => simp
    | cons segment extra =>
        have member : segment ∈ rest :=
          ((List.prefix_append_right_inj known).mp first).subset (.head _)
        have positive := Text.byteSize_pos (solid segment member)
        simp only [joined, List.flatMap_append, List.flatMap_cons, Text.byteSize_append] at bounded
        omega

theorem ofLine_eq (catalog : Catalog) {line : Text} (something : Token.scan line ≠ []) :
    ofLine catalog line =
      ofText .whitespace (Cursor.leading (Token.scan line) line) ++
        (Cursor.all (Token.scan line)).flatMap (ofCursor catalog line) ++
        ofTrailing (Cursor.trailing (Token.scan line) line) := by
  unfold ofLine
  cases tokens : Token.scan line with
  | nil => exact absurd tokens something
  | cons token tokens => rfl

theorem joined_flatMap_ofCursor (catalog : Catalog) (line : Text) (cursors : List Cursor) :
    joined (cursors.flatMap (ofCursor catalog line)) =
      cursors.flatMap fun cursor => cursor.token.raw ++ cursor.gap line := by
  induction cursors with
  | nil => rfl
  | cons cursor cursors ih =>
      rw [List.flatMap_cons, joined_append, ih, ofCursor, joined_append, joined_ofToken,
        joined_ofText, List.flatMap_cons]

/-- Lines that agree on some tokens and on the gaps behind them agree on the
segments there. -/
theorem exists_settled (catalog : Catalog) {line longer : Text} {earlier : List Token}
    {last grown : Token} (place : grown.span.start = last.span.start) (later : List Token)
    (before : List Token)
    (gaps : ∀ cursor ∈ Cursor.allFrom before (earlier ++ [last]),
      cursor.gap longer = cursor.gap line) :
    ∃ settled,
      (Cursor.allFrom before (earlier ++ [last])).flatMap (ofCursor catalog line) =
        settled ++ ofToken catalog ⟨earlier.reverse ++ before, last, []⟩ ∧
      (Cursor.allFrom before (earlier ++ grown :: later)).flatMap (ofCursor catalog longer) =
        settled ++ (Cursor.allFrom (earlier.reverse ++ before) (grown :: later)).flatMap
          (ofCursor catalog longer) := by
  induction earlier generalizing before with
  | nil =>
      refine ⟨[], ?_, rfl⟩
      simp [Cursor.allFrom, ofCursor, Cursor.gap, ofText]
  | cons token earlier ih =>
      simp only [List.cons_append, Cursor.allFrom, List.forall_mem_cons] at gaps
      obtain ⟨here, gaps⟩ := gaps
      obtain ⟨settled, short, long⟩ := ih (token :: before) gaps
      -- A gap ends where the next token begins, however far that token reaches.
      have gap : Cursor.gap ⟨before, token, earlier ++ grown :: later⟩ longer =
          Cursor.gap ⟨before, token, earlier ++ [last]⟩ line := by
        rw [← here]
        cases earlier with
        | nil => simp [Cursor.gap, place]
        | cons next earlier => rfl
      have same : ofCursor catalog longer ⟨before, token, earlier ++ grown :: later⟩ =
          ofCursor catalog line ⟨before, token, earlier ++ [last]⟩ := by
        rw [ofCursor, ofCursor, gap]
        rfl
      refine ⟨ofCursor catalog line ⟨before, token, earlier ++ [last]⟩ ++ settled, ?_, ?_⟩
      · simp [Cursor.allFrom, short]
      · simp [Cursor.allFrom, same, long]

/-- The texts of the segments make up the line. -/
theorem joined_ofLine (catalog : Catalog) (line : Text) : joined (ofLine catalog line) = line := by
  have layout := layout_scan line
  cases tokens : Token.scan line with
  | nil =>
      unfold ofLine
      rw [tokens]
      exact joined_ofTrailing line
  | cons token more =>
      rw [ofLine_eq catalog (by simp [tokens]), joined_append, joined_append,
        joined_ofText, joined_flatMap_ofCursor, joined_ofTrailing, tokens]
      exact (tokens ▸ layout).rebuilt (.whole line) []

/-- Up to the last token a longer line has the same segments, and so it has for the last
token itself if something stands behind that. -/
theorem exists_known (catalog : Catalog) {line : Text} {last : Token}
    (ended : (Token.scan line).getLast? = some last) (more : Text) :
    ∃ known before,
      ofLine catalog line = known ++ (ofToken catalog ⟨before, last, []⟩ ++
        ofTrailing (Cursor.trailing (Token.scan line) line)) ∧
      known <+: ofLine catalog (line ++ more) ∧
      (Cursor.trailing (Token.scan line) line ≠ [] →
        known ++ ofToken catalog ⟨before, last, []⟩ <+: ofLine catalog (line ++ more)) := by
  obtain ⟨earlier, grown, later, tokens, longer, place, same⟩ := Token.exists_grown ended more
  have layout : Layout 0 line (earlier ++ [last]) := tokens ▸ layout_scan line
  have gaps : ∀ cursor ∈ Cursor.all (earlier ++ [last]),
      cursor.gap (line ++ more) = cursor.gap line := by
    intro cursor member
    obtain ⟨blanks, gap, longer⟩ := layout.gap_blank (.whole line) [] cursor member
    rw [gap, longer]
  have leading : Cursor.leading (earlier ++ grown :: later) (line ++ more) =
      Cursor.leading (earlier ++ [last]) line := by
    cases earlier with
    | nil => exact layout.leading_append more place later
    | cons token earlier => exact layout.leading_append more rfl (earlier ++ grown :: later)
  obtain ⟨settled, short, long⟩ := exists_settled catalog place later [] gaps
  refine ⟨ofText .whitespace (Cursor.leading (earlier ++ [last]) line) ++ settled,
    earlier.reverse ++ [], ?_, ?_, ?_⟩
  · rw [ofLine_eq catalog (by simp [tokens]), tokens, Cursor.all, short]
    simp
  · rw [ofLine_eq catalog (by simp [longer]), longer, leading, Cursor.all, long]
    simp
  · intro behind
    have kept : ofToken catalog ⟨earlier.reverse ++ [], last, later⟩ =
        ofToken catalog ⟨earlier.reverse ++ [], last, []⟩ := rfl
    rw [ofLine_eq catalog (by simp [longer]), longer, leading, Cursor.all, long, same behind,
      Cursor.allFrom, List.flatMap_cons, ofCursor, kept]
    simp only [List.append_assoc, List.prefix_append_right_inj, List.prefix_append]

theorem byteSize_known {catalog : Catalog} {line : Text} {last : Token} {known : List Segment}
    {before : List Token} (ended : (Token.scan line).getLast? = some last)
    (short : ofLine catalog line = known ++ (ofToken catalog ⟨before, last, []⟩ ++
      ofTrailing (Cursor.trailing (Token.scan line) line))) :
    (joined known).byteSize = last.span.start ∧
      last.span.stop = last.span.start + last.raw.byteSize := by
  obtain ⟨place, read, here, -⟩ := (layout_scan line).exists_last (.whole line) ended
  have shown := congrArg Text.byteSize (joined_ofLine catalog line)
  have typed := here.byteSize
  rw [short, joined_append, joined_append, joined_ofToken, joined_ofTrailing] at shown
  simp only [Text.byteSize_append] at shown typed
  rw [read.span_eq]
  exact ⟨by simp only; omega, rfl⟩

end Segment

open Segment (joined)

/-- A line that becomes longer keeps its tokens up to the last, and that one too if
something stands behind it. The segments that reach no farther stay with them. -/
theorem more_text_keeps_what_is_settled (catalog : Catalog) {line : Text} {last : Token}
    (ended : (Token.scan line).getLast? = some last) (more : Text) :
    (Token.scan line).dropLast <+: Token.scan (line ++ more) ∧
    (Cursor.trailing (Token.scan line) line ≠ [] →
      Token.scan line <+: Token.scan (line ++ more)) ∧
    ∀ segments, segments <+: Segment.ofLine catalog line →
      ((joined segments).byteSize ≤ last.span.start ∨
        Cursor.trailing (Token.scan line) line ≠ [] ∧
          (joined segments).byteSize ≤ last.span.stop) →
      segments <+: Segment.ofLine catalog (line ++ more) := by
  obtain ⟨earlier, grown, later, tokens, longer, -, same⟩ := Token.exists_grown ended more
  refine ⟨?_, ?_, ?_⟩
  · rw [tokens, longer, List.dropLast_concat]
    exact List.prefix_append _ _
  · intro behind
    rw [tokens, longer, same behind, List.append_cons earlier last later]
    exact List.prefix_append _ _
  · intro segments first bounded
    obtain ⟨known, before, short, settled, settled_last⟩ :=
      Segment.exists_known catalog ended more
    obtain ⟨start, stop⟩ := Segment.byteSize_known ended short
    have solid := Segment.solid_ofTrailing (Cursor.trailing (Token.scan line) line)
    rw [short] at first
    rcases bounded with bounded | ⟨behind, bounded⟩
    · refine (Segment.prefix_of_byteSize_le first ?_ ?_).trans settled
      · exact (Segment.solid_ofToken catalog _).append solid
      · rwa [start]
    · rw [← List.append_assoc] at first
      refine (Segment.prefix_of_byteSize_le first solid ?_).trans (settled_last behind)
      rwa [Segment.joined_append, Segment.joined_ofToken, Text.byteSize_append, start, ← stop]

theorem half_operator_before_a_blank_stays :
    (Token.scan ['a', ' ', '&', ' ']).getLast? =
      some ⟨.brokenOperator, ['&'], ['&'], none, true, ⟨2, 3⟩⟩ ∧
    [⟨.validCommand, ['a']⟩, ⟨.whitespace, [' ']⟩, ⟨.partialAction, ['&']⟩] <+:
      Segment.ofLine (.ofLists [] [['a']]) ['a', ' ', '&', ' ', '&'] := by
  have ended : (Token.scan ['a', ' ', '&', ' ']).getLast? =
      some ⟨.brokenOperator, ['&'], ['&'], none, true, ⟨2, 3⟩⟩ := by decide +kernel
  refine ⟨ended, (more_text_keeps_what_is_settled (.ofLists [] [['a']]) ended ['&']).2.2 _ ?_ ?_⟩
  · exact ⟨[⟨.whitespace, [' ']⟩], by decide +kernel⟩
  · exact .inr ⟨by decide +kernel, by decide⟩

end LineShell
