import LineShell.Proofs.Growth
import LineShell.Proofs.Refusal

namespace LineShell

/-! What the highlighting of a line flags, and what the line is refused for.

Broken operators and words with open quotes are flagged wherever they stand. A line with
one of them is refused, though perhaps for another defect that comes before it. An operator
that lacks a command on either side is refused without a flag.
-/

open Segment (ofText ofTrailing ofToken ofCursor joined)
open Statement (ofTokens ofTokensAfter)
open Statement.Position (Behind)
open Token (scan)

/-- The styles of what is wrong, whatever stands around it. -/
def Style.isAlarm : Style → Bool
  | .partialAction | .unterminatedQuote | .unterminatedString => true
  | _ => false

def Token.isSpoiled (token : Token) : Bool := token.isBrokenOperator || token.isUnterminated

namespace Token

variable {token : Token}

theorem isSpoiled_eq_false_of_isComplete (complete : token.isComplete = true) :
    token.isSpoiled = false := by
  have word := kind_of_isWord (isWord_of_isComplete complete)
  have terminated : token.terminated = true := by
    simp only [isComplete, Bool.and_eq_true] at complete
    exact complete.2
  simp [isSpoiled, isBrokenOperator, isUnterminated, word, terminated]

theorem isSpoiled_eq_false_of_isOperator (operator : token.isOperator = true) :
    token.isSpoiled = false := by
  cases kind : token.kind with
  | operator => simp [isSpoiled, isBrokenOperator, isUnterminated, isWord, kind]
  | word | brokenOperator => simp [isOperator, operator?, kind] at operator

end Token

theorem Cursor.map_token_allFrom (before tokens : List Token) :
    (allFrom before tokens).map token = tokens := by
  induction tokens generalizing before with
  | nil => rfl
  | cons token tokens ih => rw [allFrom, List.map_cons, ih]

theorem Cursor.mem_iff_exists_token {tokens : List Token} {token : Token} :
    token ∈ tokens ↔ ∃ cursor ∈ all tokens, cursor.token = token := by
  rw [← List.mem_map, all, map_token_allFrom]

/-- What stands before a token is as long as the tokens there and the blanks between them. -/
theorem Layout.start_eq {start : Nat} {text line : Text} {first : Token}
    {before tokens : List Token} {earlier later : List Cursor} {cursor : Cursor}
    (layout : Layout start text (first :: tokens)) (here : line.RestAt start text)
    (split : Cursor.allFrom before (first :: tokens) = earlier ++ cursor :: later) :
    cursor.token.span.start = start + ((line.slice? start first.span.start).getD [] ++
      earlier.flatMap fun cursor => cursor.token.raw ++ cursor.gap line).byteSize := by
  induction earlier generalizing start text first before tokens with
  | nil =>
      obtain ⟨rfl, -⟩ := List.cons.inj split
      cases layout with
      | token blanks read onward =>
          have lead := here.slice?
          simp [read.span_eq, lead]
  | cons head earlier ih =>
      obtain ⟨rfl, behind⟩ := List.cons.inj split
      cases tokens with
      | nil => simp [Cursor.allFrom] at behind
      | cons next tokens =>
          cases layout with
          | token blanks read onward =>
              have lead := here.slice?
              rw [ih onward (read.restAt here.skip) behind]
              simp [Cursor.gap, read.span_eq, lead, Nat.add_assoc]

/-- An element of an append stands on one side of it. -/
theorem split_append {α : Type} {xs ys front back : List α} {x : α}
    (split : xs ++ ys = front ++ x :: back) :
    (∃ right, xs = front ++ x :: right) ∨
      ∃ left, front = xs ++ left ∧ ys = left ++ x :: back := by
  rcases List.append_eq_append_iff.mp split with ⟨left, rfl, behind⟩ | ⟨right, rfl, behind⟩
  · exact .inr ⟨left, rfl, behind⟩
  · cases right with
    | nil => exact .inr ⟨[], by simp, behind.symm⟩
    | cons other right =>
        obtain ⟨rfl, -⟩ := List.cons.inj behind
        exact .inl ⟨right, rfl⟩

theorem split_flatMap {α β : Type} {f : α → List β} {xs : List α} {front back : List β} {y : β}
    (split : xs.flatMap f = front ++ y :: back) :
    ∃ earlier x later left right, xs = earlier ++ x :: later ∧ f x = left ++ y :: right ∧
      front = earlier.flatMap f ++ left := by
  induction xs generalizing front with
  | nil => simp at split
  | cons x xs ih =>
      rw [List.flatMap_cons] at split
      rcases split_append split with ⟨right, here⟩ | ⟨left, rfl, behind⟩
      · exact ⟨[], x, xs, front, right, rfl, here, rfl⟩
      · obtain ⟨earlier, other, later, inner, right, rfl, here, rfl⟩ := ih behind
        exact ⟨x :: earlier, other, later, inner, right, rfl, here, by simp⟩

namespace Segment

variable {catalog : Catalog} {line : Text} {segment : Segment} {cursor : Cursor}

theorem split_ofText {style : Style} {text : Text} {left right : List Segment}
    (split : ofText style text = left ++ segment :: right) :
    left = [] ∧ segment = ⟨style, text⟩ := by
  unfold ofText at split
  split at split
  · simp at split
  · cases left with
    | nil => exact ⟨rfl, (List.cons.inj split).1.symm⟩
    | cons other left => simp at split

theorem style_of_mem_ofText {style : Style} {text : Text} (member : segment ∈ ofText style text) :
    segment.style = style := by
  obtain ⟨left, right, split⟩ := List.append_of_mem member
  rw [(split_ofText split).2]

theorem isAlarm_of_mem_ofTrailing {text : Text} (member : segment ∈ ofTrailing text) :
    segment.style.isAlarm = false := by
  rcases List.mem_append.mp member with blank | remark
  · rw [style_of_mem_ofText blank]
    rfl
  · rw [style_of_mem_ofText remark]
    rfl

theorem isAlarm_tokenStyle (catalog : Catalog) (cursor : Cursor) :
    (tokenStyle catalog cursor).isAlarm = cursor.token.isSpoiled := by
  unfold tokenStyle Token.isSpoiled Token.isBrokenOperator Token.isUnterminated Token.isWord
  cases cursor.token.kind with
  | operator operator => rfl
  | brokenOperator => rfl
  | word =>
      cases cursor.token.terminated with
      | false => rfl
      | true =>
          simp only [Bool.not_true, Bool.false_eq_true, if_false]
          repeat' split
          all_goals rfl

/-- A token is flagged as a whole or not at all. -/
theorem isAlarm_of_mem_ofToken (member : segment ∈ ofToken catalog cursor) :
    segment.style.isAlarm = cursor.token.isSpoiled := by
  unfold ofToken at member
  split at member
  · next opens =>
      simp only [opensWithQuote, Bool.and_eq_true] at opens
      rw [Token.isSpoiled, opens.1, Bool.or_true]
      rcases List.mem_append.mp member with quote | rest
      · rw [style_of_mem_ofText quote]
        rfl
      · rw [style_of_mem_ofText rest]
        rfl
  · rw [style_of_mem_ofText member, isAlarm_tokenStyle]

/-- A segment that flags something is one of those of a token, as far behind the start
of that token as the segments before it are long. -/
theorem exists_place_of_isAlarm {front back : List Segment}
    (split : ofLine catalog line = front ++ segment :: back)
    (alarm : segment.style.isAlarm = true) :
    ∃ cursor ∈ Cursor.all (scan line), ∃ left right,
      ofToken catalog cursor = left ++ segment :: right ∧
      (joined front).byteSize = cursor.token.span.start + (joined left).byteSize := by
  have notBlank {text : Text} {left right : List Segment} :
      ofText .whitespace text ≠ left ++ segment :: right := by
    intro blank
    obtain ⟨-, rfl⟩ := split_ofText blank
    simp [Style.isAlarm] at alarm
  have notTrailing {text : Text} {left right : List Segment} :
      ofTrailing text ≠ left ++ segment :: right := by
    intro trailing
    have among : segment ∈ ofTrailing text := by simp [trailing]
    simp [isAlarm_of_mem_ofTrailing among] at alarm
  have layout := layout_scan line
  cases tokens : scan line with
  | nil =>
      unfold ofLine at split
      rw [tokens] at split
      exact absurd split notTrailing
  | cons first more =>
      rw [tokens] at layout
      rw [ofLine_eq catalog (by simp [tokens]), tokens, List.append_assoc] at split
      rcases split_append split with ⟨right, leading⟩ | ⟨shown, rfl, behind⟩
      · exact absurd leading notBlank
      rcases split_append behind with ⟨right, among⟩ | ⟨left, -, trailing⟩
      · obtain ⟨earlier, cursor, later, left, right, all, here, rfl⟩ := split_flatMap among
        rcases split_append here with ⟨right, here⟩ | ⟨left, rfl, gap⟩
        · refine ⟨cursor, by simp [all], left, right, here, ?_⟩
          rw [joined_append, joined_append, joined_ofText, joined_flatMap_ofCursor,
            layout.start_eq (.whole line) all, Nat.zero_add, ← Text.byteSize_append,
            List.append_assoc]
          rfl
        · exact absurd gap notBlank
      · exact absurd trailing notTrailing

theorem exists_of_isAlarm (member : segment ∈ ofLine catalog line)
    (alarm : segment.style.isAlarm = true) :
    ∃ cursor ∈ Cursor.all (scan line), segment ∈ ofToken catalog cursor := by
  obtain ⟨front, back, split⟩ := List.append_of_mem member
  obtain ⟨cursor, here, left, right, among, -⟩ := exists_place_of_isAlarm split alarm
  exact ⟨cursor, here, by simp [among]⟩

theorem exists_around (catalog : Catalog) (member : cursor ∈ Cursor.all (scan line)) :
    ∃ front back, ofLine catalog line = front ++ (ofToken catalog cursor ++ back) ∧
      (joined front).byteSize = cursor.token.span.start := by
  obtain ⟨earlier, later, split⟩ := List.append_of_mem member
  have layout := layout_scan line
  cases tokens : scan line with
  | nil => simp [tokens, Cursor.all, Cursor.allFrom] at member
  | cons first more =>
      rw [tokens] at split layout
      refine ⟨ofText .whitespace (Cursor.leading (first :: more) line) ++
          earlier.flatMap (ofCursor catalog line),
        ofText .whitespace (cursor.gap line) ++ later.flatMap (ofCursor catalog line) ++
          ofTrailing (Cursor.trailing (first :: more) line), ?_, ?_⟩
      · rw [ofLine_eq catalog (by simp [tokens]), tokens, split, List.flatMap_append,
          List.flatMap_cons, ofCursor]
        simp only [List.append_assoc]
      · rw [joined_append, joined_ofText, joined_flatMap_ofCursor,
          layout.start_eq (.whole line) split, Nat.zero_add]
        rfl

/-- A spoiled token shows in the line, from its first byte on. -/
theorem exists_alarm (catalog : Catalog) (member : cursor ∈ Cursor.all (scan line))
    (spoiled : cursor.token.isSpoiled = true) :
    ∃ front segment back, ofLine catalog line = front ++ segment :: back ∧
      segment.style.isAlarm = true ∧ segment.text ≠ [] ∧
      (joined front).byteSize = cursor.token.span.start := by
  obtain ⟨front, back, shown, place⟩ := exists_around catalog member
  obtain ⟨_, _, read, -⟩ := (layout_scan line).placed (.whole line) cursor.token
    (Cursor.mem_iff_exists_token.mpr ⟨cursor, member, rfl⟩)
  have solid := solid_ofToken catalog cursor
  have raw := joined_ofToken catalog cursor
  cases segments : ofToken catalog cursor with
  | nil => exact absurd (segments ▸ raw).symm read.raw_ne_nil
  | cons segment more =>
      have among : segment ∈ ofToken catalog cursor := by simp [segments]
      refine ⟨front, segment, more ++ back, ?_, ?_, solid segment among, place⟩
      · rw [shown, segments, List.cons_append]
      · rw [isAlarm_of_mem_ofToken among, spoiled]

theorem exists_isAlarm_iff (catalog : Catalog) (line : Text) :
    (∃ segment ∈ ofLine catalog line, segment.style.isAlarm = true) ↔
      ∃ token ∈ scan line, token.isSpoiled = true := by
  constructor
  · rintro ⟨segment, member, alarm⟩
    obtain ⟨cursor, here, among⟩ := exists_of_isAlarm member alarm
    refine ⟨cursor.token, Cursor.mem_iff_exists_token.mpr ⟨cursor, here, rfl⟩, ?_⟩
    rw [← isAlarm_of_mem_ofToken among, alarm]
  · rintro ⟨token, member, spoiled⟩
    obtain ⟨cursor, here, rfl⟩ := Cursor.mem_iff_exists_token.mp member
    obtain ⟨front, segment, back, shown, alarm, -⟩ :=
      exists_alarm catalog here spoiled
    exact ⟨segment, by simp [shown], alarm⟩

end Segment

namespace Cursor.Faulty

variable {cursor : Cursor} {defect : Defect}

theorem span_eq (faulty : cursor.Faulty defect) : defect.span = cursor.token.span := by
  cases faulty <;> rfl

theorem isSpoiled_or_missing (faulty : cursor.Faulty defect) :
    cursor.token.isSpoiled = true ∨
      ∃ operator, defect = .missingCommand operator cursor.token.span := by
  cases faulty with
  | unterminated word unclosed =>
      exact .inl (by simp [Token.isSpoiled, Token.isUnterminated, word, unclosed])
  | broken half => exact .inl (by simp [Token.isSpoiled, half])
  | missing operator kind due => exact .inr ⟨operator, rfl⟩

end Cursor.Faulty

namespace Statement

/-- A line is refused for a token in it, or for the operator at its end. -/
theorem exists_faulty_of_error {before tokens : List Token} {position : Position} {defect : Defect}
    (behind : Behind before position) (refused : ofTokensAfter position tokens = .error defect) :
    (∃ cursor ∈ Cursor.allFrom before tokens, cursor.Faulty defect) ∨
      ∃ operator span, defect = .dangling operator span := by
  induction tokens generalizing before position with
  | nil =>
      -- Nothing is wrong with the tokens, so it is the place where they end.
      cases behind with
      | start | word => simp [ofTokensAfter] at refused
      | operator before kind => exact .inr ⟨_, _, (Except.error.inj refused).symm⟩
  | cons token tokens ih =>
      rw [Cursor.allFrom]
      by_cases sound : Cursor.Sound ⟨before, token, tokens⟩
      · obtain ⟨onward, add, behind', step⟩ := exists_step behind sound
        rw [step] at refused
        have later : ofTokensAfter onward tokens = .error defect := by
          cases after : ofTokensAfter onward tokens with
          | ok statements => simp [after, Except.map] at refused
          | error other => simpa [after, Except.map] using refused
        rcases ih behind' later with ⟨cursor, member, faulty⟩ | dangling
        · exact .inl ⟨cursor, .tail _ member, faulty⟩
        · exact .inr dangling
      · obtain ⟨other, faulty⟩ := Classical.not_forall_not.mp sound
        rw [ofTokensAfter_of_faulty behind faulty] at refused
        obtain rfl := Except.error.inj refused
        exact .inl ⟨_, .head _, faulty⟩

theorem exists_error_of_isSpoiled {tokens : List Token} {token : Token} (member : token ∈ tokens)
    (spoiled : token.isSpoiled = true) : ∃ defect, ofTokens tokens = .error defect := by
  cases read : ofTokens tokens with
  | error defect => exact ⟨defect, rfl⟩
  | ok statements =>
      rcases complete_or_operator read token member with complete | operator
      · simp [Token.isSpoiled_eq_false_of_isComplete complete] at spoiled
      · simp [Token.isSpoiled_eq_false_of_isOperator operator] at spoiled

end Statement

/-- What is flagged in a line agrees with what the line is refused for. -/
structure FlagsRefusals (catalog : Catalog) (line : Text) : Prop where
  flagged : (∃ segment ∈ Segment.ofLine catalog line, segment.style.isAlarm = true) ↔
    ∃ token ∈ scan line, token.isBrokenOperator = true ∨ token.isUnterminated = true
  refused : ∀ segment ∈ Segment.ofLine catalog line, segment.style.isAlarm = true →
    ∃ defect, ofTokens (scan line) = .error defect
  /-- A segment that is flagged begins where the defect does. -/
  covered : ∀ defect, ofTokens (scan line) = .error defect →
    ((∃ quote span, defect = .unterminated quote span) ∨
      ∃ raw span, defect = .brokenOperator raw span) →
    ∃ front segment back, Segment.ofLine catalog line = front ++ segment :: back ∧
      segment.style.isAlarm = true ∧ segment.text ≠ [] ∧
      (joined front).byteSize = defect.span.start
  unflagged : (∀ segment ∈ Segment.ofLine catalog line, segment.style.isAlarm = false) →
    (∃ statements, ofTokens (scan line) = .ok statements) ∨
    (∃ operator span, ofTokens (scan line) = .error (.missingCommand operator span)) ∨
    ∃ operator span, ofTokens (scan line) = .error (.dangling operator span)

/-- What is flagged while a line is typed is what the line is refused for, but for the
operators that lack a command. -/
theorem flagged_lines_are_refused (catalog : Catalog) (line : Text) :
    FlagsRefusals catalog line := by
  have flagged := Segment.exists_isAlarm_iff catalog line
  constructor
  case flagged => simpa [Token.isSpoiled] using flagged
  case refused =>
    intro segment member alarm
    obtain ⟨token, here, spoiled⟩ := flagged.mp ⟨segment, member, alarm⟩
    exact Statement.exists_error_of_isSpoiled here spoiled
  case covered =>
    intro defect refused lexical
    rcases Statement.exists_faulty_of_error .start refused with ⟨cursor, member, faulty⟩ | dangling
    · rcases faulty.isSpoiled_or_missing with spoiled | ⟨operator, rfl⟩
      · rw [faulty.span_eq]
        exact Segment.exists_alarm catalog member spoiled
      · simp at lexical
    · obtain ⟨operator, span, rfl⟩ := dangling
      simp at lexical
  case unflagged =>
    intro quiet
    cases read : ofTokens (scan line) with
    | ok statements => exact .inl ⟨statements, rfl⟩
    | error defect =>
        rcases Statement.exists_faulty_of_error .start read with
          ⟨cursor, member, faulty⟩ | ⟨operator, span, rfl⟩
        · rcases faulty.isSpoiled_or_missing with spoiled | ⟨operator, rfl⟩
          · obtain ⟨segment, among, alarm⟩ := flagged.mpr
              ⟨cursor.token, Cursor.mem_iff_exists_token.mpr ⟨cursor, member, rfl⟩, spoiled⟩
            simp [quiet segment among] at alarm
          · exact .inr (.inl ⟨_, _, rfl⟩)
        · exact .inr (.inr ⟨_, _, rfl⟩)

theorem first_of_two_flags_decides :
    ofTokens (scan ['a', ' ', '&', ' ', '"']) = .error (.brokenOperator ['&'] ⟨2, 3⟩) ∧
    ∃ front segment back,
      Segment.ofLine (.ofLists [] [['a']]) ['a', ' ', '&', ' ', '"'] = front ++ segment :: back ∧
      segment.style.isAlarm = true ∧ segment.text ≠ [] ∧ (joined front).byteSize = 2 := by
  have refused : ofTokens (scan ['a', ' ', '&', ' ', '"']) =
      .error (.brokenOperator ['&'] ⟨2, 3⟩) := by
    have scanned : scan ['a', ' ', '&', ' ', '"'] =
        [⟨.word, ['a'], ['a'], none, true, ⟨0, 1⟩⟩,
          ⟨.brokenOperator, ['&'], ['&'], none, true, ⟨2, 3⟩⟩,
          ⟨.word, [], ['"'], some .double, false, ⟨4, 5⟩⟩] := by decide +kernel
    rw [scanned]
    rfl
  exact ⟨refused, (flagged_lines_are_refused _ _).covered _ refused (.inr ⟨_, _, rfl⟩)⟩

end LineShell
