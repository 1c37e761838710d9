import LineShell.Proofs.Flagging

namespace LineShell

/-! What the segments of a line cover.

The segments are cut at the borders of the tokens. Between them stand blanks, behind the
last token perhaps a remark, and a token itself is one segment, or two if it begins with the
quote that is shown as open. Nothing of the line is lost and nothing is shown twice.
-/

open Segment (ofLine ofText ofTrailing ofToken ofCursor joined)
open Token (scan)

/-- The texts in which a token is shown. A word with open quotes that begins with the quote
recorded for it is divided behind that quote. -/
def Token.parts (token : Token) : List Text :=
  match token.raw with
  | [] => [[]]
  | first :: rest =>
      if token.isUnterminated = true ∧ token.quote.map Quote.char = some first then
        if rest = [] then [[first]] else [[first], rest]
      else [first :: rest]

namespace Segment

/-- The segment shows a token, or a part of one. -/
def showsToken (segment : Segment) : Bool :=
  segment.style ≠ .whitespace && segment.style ≠ .trailing

variable {segment : Segment} {style : Style} {cursor : Cursor} {catalog : Catalog} {line : Text}

theorem ofTrailing_blanks (blanks : Blanks) {remark : Text}
    (quiet : remark = [] ∨ remark.head? = some '#') :
    ofTrailing (blanks.text ++ remark) =
      ofText .whitespace blanks.text ++ ofText .trailing remark := by
  rw [ofTrailing, List.takeWhile_append_of_pos blanks.blank,
    List.dropWhile_append_of_pos blanks.blank]
  rcases quiet with rfl | hash
  · simp
  · obtain ⟨rest, rfl⟩ := List.head?_eq_some_iff.mp hash
    have other : Text.isBlank '#' = false := by decide
    simp [other]

/-- The segments of a line with and without tokens. -/
theorem exists_frame (catalog : Catalog) (line : Text) :
    ∃ (leading blanks : Blanks) (remark : Text), (remark = [] ∨ remark.head? = some '#') ∧
      ofLine catalog line = ofText .whitespace leading.text ++
        (Cursor.all (scan line)).flatMap (ofCursor catalog line) ++
        (ofText .whitespace blanks.text ++ ofText .trailing remark) := by
  have layout := layout_scan line
  by_cases nothing : scan line = []
  · obtain ⟨blanks, remark, quiet, typed⟩ := (nothing ▸ layout).quiet
    refine ⟨⟨[], by simp⟩, blanks, remark, quiet, ?_⟩
    rw [← ofTrailing_blanks blanks quiet, ← typed, nothing, ofLine, nothing]
    rfl
  · obtain ⟨leading, found⟩ := layout.leading_eq nothing
    have ended := List.getLast?_eq_some_getLast nothing
    obtain ⟨-, -, -, rest⟩ := layout.exists_last (.whole line) ended
    obtain ⟨blanks, remark, quiet, behind⟩ := rest.quiet
    refine ⟨leading, blanks, remark, quiet, ?_⟩
    rw [ofLine_eq catalog nothing, found, behind, ofTrailing_blanks blanks quiet]

theorem tokenStyle_ne (catalog : Catalog) (cursor : Cursor) :
    tokenStyle catalog cursor ≠ .whitespace ∧ tokenStyle catalog cursor ≠ .trailing := by
  unfold tokenStyle
  repeat' split
  all_goals simp

theorem showsToken_of_mem_ofToken (member : segment ∈ ofToken catalog cursor) :
    segment.showsToken = true := by
  unfold ofToken at member
  split at member
  · rcases List.mem_append.mp member with quote | rest
    · simp [showsToken, style_of_mem_ofText quote]
    · simp [showsToken, style_of_mem_ofText rest]
  · simp [showsToken, style_of_mem_ofText member, tokenStyle_ne]

theorem filter_ofText {text : Text} (apart : style = .whitespace ∨ style = .trailing) :
    (ofText style text).filter showsToken = [] := by
  rw [List.filter_eq_nil_iff]
  intro segment member
  have same := style_of_mem_ofText member
  rcases apart with rfl | rfl <;> simp [showsToken, same]

theorem filter_flatMap_ofCursor (catalog : Catalog) (line : Text) (cursors : List Cursor) :
    (cursors.flatMap (ofCursor catalog line)).filter showsToken =
      cursors.flatMap (ofToken catalog) := by
  induction cursors with
  | nil => rfl
  | cons cursor cursors ih =>
      have shown : (ofToken catalog cursor).filter showsToken = ofToken catalog cursor :=
        List.filter_eq_self.mpr fun _ member => showsToken_of_mem_ofToken member
      rw [List.flatMap_cons, List.filter_append, ih, ofCursor, List.filter_append, shown,
        filter_ofText (.inl rfl), List.append_nil, List.flatMap_cons]

theorem map_text_ofText (style : Style) {text : Text} (something : text ≠ []) :
    (ofText style text).map Segment.text = [text] := by
  obtain ⟨c, rest, rfl⟩ := List.exists_cons_of_ne_nil something
  rfl

theorem map_text_ofToken (catalog : Catalog) (something : cursor.token.raw ≠ []) :
    (ofToken catalog cursor).map Segment.text = cursor.token.parts := by
  obtain ⟨first, rest, raw⟩ := List.exists_cons_of_ne_nil something
  have opens : opensWithQuote cursor.token = true ↔ cursor.token.isUnterminated = true ∧
      cursor.token.quote.map Quote.char = some first := by
    cases quote : cursor.token.quote with
    | none => simp [opensWithQuote, quote]
    | some quote' => simp [opensWithQuote, quote, raw, @eq_comm _ first]
  rw [ofToken, Token.parts, raw]
  simp only [opens]
  split
  · by_cases alone : rest = []
    · simp [alone, ofText]
    · simp [alone, ofText]
  · exact map_text_ofText _ (List.cons_ne_nil first rest)

theorem map_text_flatMap_ofToken (catalog : Catalog) (line : Text) :
    ((Cursor.all (scan line)).flatMap (ofToken catalog)).map Segment.text =
      (scan line).flatMap Token.parts := by
  have parts : ∀ cursor ∈ Cursor.all (scan line),
      (ofToken catalog cursor).map Segment.text = cursor.token.parts := by
    intro cursor here
    obtain ⟨_, _, read, -⟩ := (layout_scan line).placed (.whole line) cursor.token
      (Cursor.mem_iff_exists_token.mpr ⟨cursor, here, rfl⟩)
    exact map_text_ofToken catalog read.raw_ne_nil
  have tokens : (Cursor.all (scan line)).map Cursor.token = scan line :=
    Cursor.map_token_allFrom [] (scan line)
  rw [List.map_flatMap, List.flatMap_def, List.map_congr_left parts, ← List.flatMap_def,
    ← List.flatMap_map, tokens]

theorem solid_ofLine (catalog : Catalog) (line : Text) : Solid (ofLine catalog line) := by
  obtain ⟨leading, blanks, remark, -, frame⟩ := exists_frame catalog line
  have shown : Solid ((Cursor.all (scan line)).flatMap (ofCursor catalog line)) := by
    intro segment member
    obtain ⟨cursor, -, among⟩ := List.mem_flatMap.mp member
    exact (solid_ofToken catalog cursor).append (solid_ofText _ _) segment among
  rw [frame]
  exact ((solid_ofText _ _).append shown).append ((solid_ofText _ _).append (solid_ofText _ _))

/-- The segment is no remark, and if it shows white space, then nothing else. -/
def Plain (segment : Segment) : Prop :=
  segment.style ≠ .trailing ∧
    (segment.style = .whitespace → ∀ c ∈ segment.text, Text.isBlank c = true)

theorem plain_ofBlanks (blanks : Blanks) :
    ∀ segment ∈ ofText .whitespace blanks.text, Plain segment := by
  intro segment member
  obtain ⟨left, right, split⟩ := List.append_of_mem member
  obtain ⟨-, rfl⟩ := split_ofText split
  exact ⟨by simp, fun _ => blanks.blank⟩

theorem plain_ofCursor (here : cursor ∈ Cursor.all (scan line)) :
    ∀ segment ∈ ofCursor catalog line cursor, Plain segment := by
  intro segment member
  rcases List.mem_append.mp member with token | gap
  · have shown := showsToken_of_mem_ofToken token
    simp only [showsToken, Bool.and_eq_true, decide_eq_true_eq] at shown
    exact ⟨shown.2, fun blank => absurd blank shown.1⟩
  · obtain ⟨blanks, found, -⟩ := (layout_scan line).gap_blank (.whole line) [] cursor here
    exact plain_ofBlanks blanks segment (found ▸ gap)

/-- A remark ends the line, and nothing before it is one. -/
theorem exists_remark (catalog : Catalog) (line : Text) :
    ∃ (front : List Segment) (remark : Text), (remark = [] ∨ remark.head? = some '#') ∧
      ofLine catalog line = front ++ ofText .trailing remark ∧
      ∀ segment ∈ front, Plain segment := by
  obtain ⟨leading, blanks, remark, quiet, frame⟩ := exists_frame catalog line
  refine ⟨_, remark, quiet, frame.trans (List.append_assoc _ _ _).symm, ?_⟩
  intro segment member
  rcases List.mem_append.mp member with before | behind
  · rcases List.mem_append.mp before with lead | among
    · exact plain_ofBlanks leading segment lead
    · obtain ⟨cursor, here, among⟩ := List.mem_flatMap.mp among
      exact plain_ofCursor here segment among
  · exact plain_ofBlanks blanks segment behind

end Segment

/-- The segments are all there is of the line. They have the borders of the tokens, and what
stands between these is blank up to the remark at the end. -/
structure Covers (segments : List Segment) (line : Text) : Prop where
  solid : ∀ segment ∈ segments, segment.text ≠ []
  joined : joined segments = line
  blank : ∀ segment ∈ segments, segment.style = .whitespace →
    ∀ c ∈ segment.text, Text.isBlank c = true
  remark : ∀ front segment back, segments = front ++ segment :: back →
    segment.style = .trailing → back = [] ∧ segment.text.head? = some '#'
  tokens : (segments.filter Segment.showsToken).map Segment.text = (scan line).flatMap Token.parts

theorem segments_cover_line (catalog : Catalog) (line : Text) :
    Covers (ofLine catalog line) line := by
  obtain ⟨shown, remark, quiet, divided, plain⟩ := Segment.exists_remark catalog line
  constructor
  case solid => exact Segment.solid_ofLine catalog line
  case joined => exact Segment.joined_ofLine catalog line
  case blank =>
    intro segment member blank
    rw [divided] at member
    rcases List.mem_append.mp member with front | last
    · exact (plain segment front).2 blank
    · rw [Segment.style_of_mem_ofText last] at blank
      contradiction
  case remark =>
    intro front segment back split trailing
    rw [divided] at split
    rcases split_append split with ⟨right, among⟩ | ⟨left, -, last⟩
    · exact absurd trailing (plain segment (by simp [among])).1
    · rcases quiet with rfl | hash
      · simp [ofText] at last
      · obtain ⟨rest, rfl⟩ := List.head?_eq_some_iff.mp hash
        obtain ⟨rfl, rfl⟩ := Segment.split_ofText last
        exact ⟨(List.cons.inj last).2.symm, rfl⟩
  case tokens =>
    obtain ⟨leading, blanks, remark, -, frame⟩ := Segment.exists_frame catalog line
    rw [frame, List.filter_append, List.filter_append, List.filter_append,
      Segment.filter_ofText (.inl rfl), Segment.filter_ofText (.inl rfl),
      Segment.filter_ofText (.inr rfl), Segment.filter_flatMap_ofCursor, List.nil_append,
      List.append_nil, List.append_nil, Segment.map_text_flatMap_ofToken]

end LineShell
