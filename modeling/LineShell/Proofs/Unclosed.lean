import LineShell.Proofs.Flagging

namespace LineShell

/-! Words whose quotes never close.

Such a word is spelled in pieces up to the quote that stays open. The style that the word
is recorded with is that of the first quote in it, which an earlier piece may have closed
again. What the line is refused for names that style, and what is flagged in the line is
the first quote too. Both are right about the open quote where no quoted piece stands
before it.
-/

open Segment (ofLine ofText ofToken ofCursor joined)
open Statement (ofTokens)
open Token (Word scan)

namespace Spelling

theorem Piece.text_ne_nil (piece : Piece) : piece.text ≠ [] := by
  cases piece <;> simp [Piece.text]

/-- A word to the end of the line, with the quote that nothing closes. -/
structure Unclosed where
  pieces : List Piece
  quote : Quote
  inside : Text
  stays : StaysOpen quote inside

namespace Unclosed

def front (word : Unclosed) : Text := word.pieces.flatMap Piece.text

def text (word : Unclosed) : Text := word.front ++ word.quote.char :: word.inside

/-- The quote that opened first in the word. -/
def firstQuote (word : Unclosed) : Quote := (word.pieces.findSome? Piece.quote?).getD word.quote

theorem firstQuote_eq_quote_iff (word : Unclosed) :
    word.firstQuote = word.quote ↔
      ∀ closed, word.pieces.findSome? Piece.quote? = some closed → closed = word.quote := by
  cases found : word.pieces.findSome? Piece.quote? <;> simp [firstQuote, found]

theorem byteSize_front_eq_zero_iff (word : Unclosed) :
    word.front.byteSize = 0 ↔ word.pieces = [] := by
  cases pieces : word.pieces with
  | nil => simp [front, pieces]
  | cons piece more =>
      have positive := Text.byteSize_pos piece.text_ne_nil
      simp only [front, pieces, List.flatMap_cons, Text.byteSize_append, List.cons_ne_nil,
        iff_false]
      omega

theorem read_front (word : Unclosed) : (Word.read none word.front).stillOpen = none := by
  rw [front, ← List.append_nil (word.pieces.flatMap Piece.text), Word.read_pieces]
  rfl

theorem read_front_append (word : Unclosed) {inside content raw : Text} {still : Option Quote}
    (read : Word.read (some word.quote) inside = ⟨content, raw, none, still, []⟩) :
    Word.read none (word.front ++ word.quote.char :: inside) =
      ⟨word.pieces.flatMap Piece.value ++ content, word.front ++ word.quote.char :: raw,
        some word.firstQuote, still, []⟩ := by
  rw [front, Word.read_pieces, Word.read_opening, read]
  cases found : word.pieces.findSome? Piece.quote? <;>
    simp [Word.afterPieces, Word.afterOpening, firstQuote, found]

theorem read_text (word : Unclosed) :
    ∃ content, Word.read none word.text =
      ⟨content, word.text, some word.firstQuote, some word.quote, []⟩ := by
  obtain ⟨content, opened⟩ := Word.exists_read_open word.stays
  exact ⟨_, word.read_front_append opened⟩

/-- The word begins with the quote that opened first in it. -/
theorem head_text_iff (word : Unclosed) :
    word.text.head? = some word.firstQuote.char ↔
      ∀ piece, word.pieces.head? = some piece → piece.quote?.isSome = true := by
  obtain ⟨pieces, quote, inside, stays⟩ := word
  cases pieces with
  | nil => simp [text, front, firstQuote]
  | cons piece pieces =>
      cases piece with
      | bare c plain =>
          simp only [isBare, Bool.and_eq_true, bne_iff_ne] at plain
          have other (quote : Quote) : c ≠ quote.char := by
            cases quote
            · exact plain.1.2
            · exact plain.2
          simp [text, front, firstQuote, Piece.text, Piece.quote?, other]
      | escaped c =>
          have other (quote : Quote) : '\\' ≠ quote.char := by cases quote <;> decide
          simp [text, front, firstQuote, Piece.text, Piece.quote?, other]
      | single | double =>
          simp [text, front, firstQuote, Piece.text, Piece.quote?, List.findSome?_cons]

end Unclosed

/-- What is read with quotes open at its end has a quote that nothing closes. -/
theorem exists_unclosed {text : Text} (opened : (Word.read none text).stillOpen ≠ none) :
    ∃ word : Unclosed, word.text = text := by
  obtain ⟨pieces, rest, rfl, stopped⟩ := Word.exists_pieces text
  rw [Word.read_pieces] at opened
  rcases stopped with ends | rfl | ⟨quote, inside, rfl, stays⟩
  · rw [Word.read_of_ends ends] at opened
    exact absurd rfl opened
  · exact absurd rfl opened
  · exact ⟨⟨pieces, quote, inside, stays⟩, rfl⟩

end Spelling

open Spelling (Piece Unclosed)

theorem Token.ReadAt.of_isUnterminated {start : Nat} {token : Token} {rest : Text}
    (read : token.ReadAt start rest) (unclosed : token.isUnterminated = true) :
    token = (Word.read none token.raw).toToken start ∧
      (Word.read none token.raw).stillOpen ≠ none := by
  cases read with
  | operator | broken => simp [isUnterminated, ofOperator, isWord] at unclosed
  | word c text starts uncommented =>
      have opened : (Word.read none (c :: text)).stillOpen ≠ none := by
        intro closed
        simp [isUnterminated, Word.toToken, closed] at unclosed
      have whole := Word.raw_append_rest none (c :: text)
      rw [Word.rest_of_stillOpen opened, List.append_nil] at whole
      have raw : ((Word.read none (c :: text)).toToken start).raw = c :: text := whole
      rw [raw]
      exact ⟨rfl, opened⟩

theorem Cursor.getLast?_of_isLast {before tokens : List Token} {cursor : Cursor}
    (member : cursor ∈ allFrom before tokens) (last : cursor.isLast = true) :
    tokens.getLast? = some cursor.token := by
  induction tokens generalizing before with
  | nil => simp [allFrom] at member
  | cons token tokens ih =>
      rcases List.mem_cons.mp member with rfl | later
      · obtain rfl : tokens = [] := List.isEmpty_iff.mp last
        rfl
      · have ended := ih later
        rw [List.getLast?_cons, ended]
        rfl

/-- Only the last token of a line can be a word with open quotes. -/
theorem Cursor.token_eq_last {line : Text} {last : Token} {cursor : Cursor}
    (ended : (scan line).getLast? = some last) (member : cursor ∈ all (scan line))
    (unclosed : cursor.token.isUnterminated = true) : cursor.token = last := by
  have still : cursor.token.terminated = false := by
    simp only [Token.isUnterminated, Bool.and_eq_true, Bool.not_eq_true'] at unclosed
    exact unclosed.2
  have final := (layout_scan line).unterminated (.whole line) [] cursor member still
  have found := getLast?_of_isLast member final.1
  exact Option.some.inj (found.symm.trans ended)

namespace Segment

variable {catalog : Catalog} {line : Text} {segment : Segment} {cursor : Cursor}

theorem opens_of_mem_ofToken (member : segment ∈ ofToken catalog cursor)
    (flagged : segment.style = .unterminatedQuote) : opensWithQuote cursor.token = true := by
  unfold ofToken at member
  split at member
  · assumption
  · next unopened =>
      have style : tokenStyle catalog cursor = .unterminatedQuote := by
        rw [← style_of_mem_ofText member, flagged]
      unfold tokenStyle at style
      repeat' split at style
      all_goals contradiction

theorem isUnterminated_of_opens {token : Token} (opens : opensWithQuote token = true) :
    token.isUnterminated = true := by
  simp only [opensWithQuote, Bool.and_eq_true] at opens
  exact opens.1

/-- The flagged quote is the first character of its word. -/
theorem eq_head_of_flagged {left right : List Segment}
    (split : ofToken catalog cursor = left ++ segment :: right)
    (flagged : segment.style = .unterminatedQuote) :
    left = [] ∧ segment.text = cursor.token.raw.head?.toList := by
  have among : segment ∈ ofToken catalog cursor := by simp [split]
  have opens := opens_of_mem_ofToken among flagged
  rw [ofToken, if_pos opens] at split
  rcases split_append split with ⟨right, quote⟩ | ⟨left, rfl, rest⟩
  · obtain ⟨nothing, rfl⟩ := split_ofText quote
    exact ⟨nothing, List.take_one⟩
  · obtain ⟨-, rfl⟩ := split_ofText rest
    simp at flagged

end Segment

/-- What is shown of a word with open quotes that ends a line: its first quote. -/
structure ShowsFirstQuote (catalog : Catalog) (line : Text) (last : Token) (word : Unclosed) :
    Prop where
  /-- The reader has no quotes open before that of the word, and those open at the end. -/
  opened : (Word.read none word.front).stillOpen = none ∧
    (Word.read none last.raw).stillOpen = some word.quote
  named : ∀ quote span, ofTokens (scan line) = .error (.unterminated quote span) →
    quote = some word.firstQuote ∧ span = last.span ∧
      (quote = some word.quote ↔
        ∀ closed, word.pieces.findSome? Piece.quote? = some closed → closed = word.quote)
  flagged : (∃ segment ∈ ofLine catalog line, segment.style = .unterminatedQuote) ↔
    ∀ piece, word.pieces.head? = some piece → piece.quote?.isSome = true
  placed : ∀ front segment back, ofLine catalog line = front ++ segment :: back →
    segment.style = .unterminatedQuote →
    segment.text = [word.firstQuote.char] ∧ (joined front).byteSize = last.span.start ∧
      ((joined front).byteSize = last.span.start + word.front.byteSize ↔ word.pieces = [])

/-- Of a word with open quotes the quote that opened first is named and flagged, which is the
open one only where no other quotes stand before it. -/
theorem first_quote_is_shown_as_open (catalog : Catalog) (line : Text) {last : Token}
    (ended : (scan line).getLast? = some last) (unclosed : last.isUnterminated = true) :
    (∃ word : Unclosed, word.text = last.raw) ∧
    ∀ word : Unclosed, word.text = last.raw → ShowsFirstQuote catalog line last word := by
  obtain ⟨start, read, -⟩ := (layout_scan line).exists_last (.whole line) ended
  obtain ⟨token, opened⟩ := read.of_isUnterminated unclosed
  refine ⟨Spelling.exists_unclosed opened, ?_⟩
  intro word typed
  obtain ⟨content, found⟩ := word.read_text
  rw [typed] at found
  have quote : last.quote = some word.firstQuote := by
    rw [token, found]
    rfl
  have opens : Segment.opensWithQuote last = true ↔
      last.raw.head? = some word.firstQuote.char := by
    simp [Segment.opensWithQuote, unclosed, quote]
  constructor
  case opened => exact ⟨word.read_front, by rw [found]⟩
  case named =>
    intro named span refused
    rcases Statement.exists_faulty_of_error .start refused with ⟨cursor, member, faulty⟩ | dangling
    · cases faulty with
      | unterminated isWord still =>
          obtain rfl := Cursor.token_eq_last ended member
            (by simp [Token.isUnterminated, isWord, still])
          refine ⟨quote, rfl, ?_⟩
          rw [quote, Option.some_inj, word.firstQuote_eq_quote_iff]
    · obtain ⟨operator, place, other⟩ := dangling
      cases other
  case flagged =>
    rw [← word.head_text_iff, typed, ← opens]
    constructor
    · rintro ⟨segment, member, flagged⟩
      obtain ⟨cursor, here, among⟩ :=
        Segment.exists_of_isAlarm member (by simp [flagged, Style.isAlarm])
      have opening := Segment.opens_of_mem_ofToken among flagged
      rwa [Cursor.token_eq_last ended here (Segment.isUnterminated_of_opens opening)] at opening
    · intro opening
      obtain ⟨cursor, here, rfl⟩ := Cursor.mem_iff_exists_token.mp (List.mem_of_getLast? ended)
      obtain ⟨front, back, shown, -⟩ := Segment.exists_around catalog here
      refine ⟨⟨.unterminatedQuote, [word.firstQuote.char]⟩, ?_, rfl⟩
      rw [shown, ofToken, if_pos opening, List.take_one, opens.mp opening]
      simp [ofText]
  case placed =>
    intro front segment back split flagged
    obtain ⟨cursor, here, left, right, among, place⟩ :=
      Segment.exists_place_of_isAlarm split (by simp [flagged, Style.isAlarm])
    have member : segment ∈ ofToken catalog cursor := by simp [among]
    have opening := Segment.opens_of_mem_ofToken member flagged
    obtain rfl := Cursor.token_eq_last ended here (Segment.isUnterminated_of_opens opening)
    obtain ⟨rfl, text⟩ := Segment.eq_head_of_flagged among flagged
    refine ⟨?_, place, ?_⟩
    · rw [text, opens.mp opening]
      rfl
    · have nothing : (joined []).byteSize = 0 := rfl
      rw [place, ← word.byteSize_front_eq_zero_iff]
      omega

theorem single_quotes_are_open_behind_double_ones :
    ShowsFirstQuote (.ofLists [] []) ['a', ' ', '"', 'b', '"', '\'', 'c']
      ⟨.word, ['b', 'c'], ['"', 'b', '"', '\'', 'c'], some .double, false, ⟨2, 7⟩⟩
      ⟨[.double ['b'] rfl], .single, ['c'], (by decide : Quote.single.char ∉ ['c'])⟩ := by
  have ended : (scan ['a', ' ', '"', 'b', '"', '\'', 'c']).getLast? =
      some ⟨.word, ['b', 'c'], ['"', 'b', '"', '\'', 'c'], some .double, false, ⟨2, 7⟩⟩ := by
    decide +kernel
  exact (first_quote_is_shown_as_open _ _ ended rfl).2 _ rfl

theorem closed_quote_is_named_and_flagged :
    (Word.read none ['\'', 'a', '\'', '"', 'b']).stillOpen = some .double ∧
    ofTokens (scan ['\'', 'a', '\'', '"', 'b']) =
      .error (.unterminated (some .single) ⟨0, 5⟩) ∧
    ofLine (.ofLists [] []) ['\'', 'a', '\'', '"', 'b'] =
      [⟨.unterminatedQuote, ['\'']⟩, ⟨.unterminatedString, ['a', '\'', '"', 'b']⟩] := by
  have scanned : scan ['\'', 'a', '\'', '"', 'b'] =
      [⟨.word, ['a', 'b'], ['\'', 'a', '\'', '"', 'b'], some .single, false, ⟨0, 5⟩⟩] := by
    decide +kernel
  refine ⟨by decide +kernel, ?_, by decide +kernel⟩
  rw [scanned]
  rfl

end LineShell
