import LineShell.Proofs.Accepting
import LineShell.Proofs.Unclosed

namespace LineShell

/-! Typing the quote that a line lacks.

What a word denotes up to the end of the line is what it denotes with its quotes closed there. So
the missing quote completes the last word and changes nothing else, and the line is accepted if
the word was all that was wrong with it. Only a backslash at the end takes the quote from its
purpose, where it stands in double quotes and is not escaped itself.
-/

open Statement (ofTokens ofTokensAfter)
open Token (Word scan scanFrom)

theorem Quote.utf8Size_char (quote : Quote) : quote.char.utf8Size = 1 := by
  cases quote <;> decide

/-- An odd number of backslashes ends the text, so that the last is not the second of a pair. -/
def Text.endsInLoneBackslash (text : Text) : Bool :=
  text.foldl (fun lone c => c = '\\' && !lone) false

namespace Spelling

theorem endsInLoneBackslash_cons {c : Char} (other : c ≠ '\\') (rest : Text) :
    Text.endsInLoneBackslash (c :: rest) = Text.endsInLoneBackslash rest := by
  simp [Text.endsInLoneBackslash, other]

theorem endsInLoneBackslash_pair (c : Char) (rest : Text) :
    Text.endsInLoneBackslash ('\\' :: c :: rest) = Text.endsInLoneBackslash rest := by
  simp [Text.endsInLoneBackslash]

theorem isClosed_eq {inside : Text} (stays : StaysOpen .double inside) :
    isClosed inside = !Text.endsInLoneBackslash inside := by
  fun_induction isClosed inside with
  | case1 | case3 => rfl
  | case2 rest => exact absurd (stays [] rest rfl) (by decide)
  | case4 next rest escapable _ ih =>
      rw [ih (stays.of_escaped escapable), endsInLoneBackslash_pair]
  | case5 next rest literal _ ih =>
      have other : next ≠ '\\' := by
        rintro rfl
        exact literal rfl
      rw [ih (stays.of_backslash literal), endsInLoneBackslash_cons other,
        endsInLoneBackslash_pair]
  | case6 c rest notQuote notBackslash ih =>
      rw [ih (stays.of_cons notQuote notBackslash), endsInLoneBackslash_cons notBackslash]

theorem StaysOpen.append_escaped {inside : Text} (stays : StaysOpen .double inside)
    (shut : isClosed inside = false) : StaysOpen .double (inside ++ [Quote.double.char]) := by
  intro front rest typed
  rcases List.eq_nil_or_concat rest with rfl | ⟨more, last, rfl⟩
  · obtain rfl := List.append_cancel_right typed
    exact shut
  · rw [List.concat_eq_append, ← List.cons_append, ← List.append_assoc] at typed
    exact stays front more (List.append_inj' typed rfl).1

theorem exists_read_closed {quote : Quote} {inside : Text} (stays : StaysOpen quote inside)
    (closes : quote = .double → isClosed inside = true) :
    ∃ content, Word.read (some quote) inside = ⟨content, inside, none, some quote, []⟩ ∧
      Word.read (some quote) (inside ++ [quote.char]) =
        ⟨content, inside ++ [quote.char], none, none, []⟩ := by
  cases quote with
  | single =>
      refine ⟨inside, Word.read_single_open stays, ?_⟩
      rw [Word.read_single stays]
      simp [Word.read, Word.stop, Word.after]
  | double =>
      refine ⟨unescaped inside, Word.read_double_open stays, ?_⟩
      rw [Word.read_double (closes rfl)]
      simp [Word.read, Word.stop, Word.after]

namespace Unclosed

variable (word : Unclosed)

theorem endsInLoneBackslash_append (front : Text) (double : word.quote = .double) :
    Text.endsInLoneBackslash (front ++ word.text) = !isClosed word.inside := by
  obtain ⟨pieces, quote, inside, stays⟩ := word
  obtain rfl : quote = .double := double
  rw [isClosed_eq stays]
  simp [Text.endsInLoneBackslash, text, Quote.char]

theorem exists_read_text_append (closes : word.quote = .double → isClosed word.inside = true) :
    ∃ content,
      Word.read none word.text =
        ⟨content, word.text, some word.firstQuote, some word.quote, []⟩ ∧
      Word.read none (word.text ++ [word.quote.char]) =
        ⟨content, word.text ++ [word.quote.char], some word.firstQuote, none, []⟩ := by
  obtain ⟨content, opened, closed⟩ := Spelling.exists_read_closed word.stays closes
  refine ⟨_, word.read_front_append opened, ?_⟩
  rw [text, List.append_assoc, List.cons_append]
  exact word.read_front_append closed

/-- An escaped quote closes nothing. -/
def appendEscaped (shut : isClosed word.inside = false) (double : word.quote = .double) :
    Unclosed where
  pieces := word.pieces
  quote := .double
  inside := word.inside ++ [Quote.double.char]
  stays := by
    have stays := word.stays
    rw [double] at stays
    exact stays.append_escaped shut

theorem text_appendEscaped (shut : isClosed word.inside = false) (double : word.quote = .double) :
    (word.appendEscaped shut double).text = word.text ++ [word.quote.char] := by
  simp [text, front, appendEscaped, double]

end Unclosed

end Spelling

open Spelling (Unclosed isClosed)

/-- A word that is followed by another token is not one with open quotes. -/
theorem Layout.terminated_of_earlier {start : Nat} {text : Text} {earlier : List Token}
    {last : Token} (layout : Layout start text (earlier ++ [last])) :
    ∀ token ∈ earlier, token.terminated = true := by
  induction earlier generalizing start text with
  | nil => simp
  | cons token earlier ih =>
      cases layout with
      | token blanks read onward =>
          refine List.forall_mem_cons.mpr ⟨?_, ih onward⟩
          cases terminated : token.terminated with
          | true => rfl
          | false =>
              obtain ⟨-, rfl⟩ := read.unterminated terminated
              simpa using onward.eq_nil rfl

namespace Token

theorem ReadAt.scanFrom_raw_append {start : Nat} {token : Token} {rest : Text}
    (read : token.ReadAt start rest) (word : token.isWord = true) (more : Text) :
    scanFrom start (token.raw ++ more) =
      (Word.read none (token.raw ++ more)).toToken start ::
        scanFrom (start + (Word.read none (token.raw ++ more)).raw.byteSize)
          (Word.read none (token.raw ++ more)).rest := by
  cases read with
  | operator | broken => simp [isWord, ofOperator] at word
  | word c text starts uncommented =>
      obtain ⟨behind, raw⟩ := Word.exists_raw_eq_cons text starts
      have typed : ((Word.read none (c :: text)).toToken start).raw = c :: behind := raw
      rw [typed, List.cons_append]
      exact scanFrom_word starts uncommented

/-- The word with its quotes closed behind it. -/
def closedBy (quote : Quote) (token : Token) : Token :=
  { token with
    raw := token.raw ++ [quote.char]
    terminated := true
    span := ⟨token.span.start, token.span.stop + 1⟩ }

theorem isComplete_closedBy {token : Token} (quote : Quote)
    (unclosed : token.isUnterminated = true) : (token.closedBy quote).isComplete = true := by
  rw [isUnterminated, Bool.and_eq_true] at unclosed
  rw [isComplete, Bool.and_eq_true]
  exact ⟨unclosed.1, rfl⟩

variable {line : Text} {earlier : List Token} {last : Token}

/-- What is typed behind a word with open quotes is read together with it. -/
theorem exists_read_last (tokens : scan line = earlier ++ [last])
    (unclosed : last.isUnterminated = true) :
    ∃ (front : Text) (word : Unclosed) (start : Nat), line = front ++ word.text ∧
      last = (Word.read none word.text).toToken start ∧
      ∀ more, (Word.read none (word.text ++ more)).rest = [] →
        scan (line ++ more) =
          earlier ++ [(Word.read none (word.text ++ more)).toToken start] := by
  have layout := layout_scan line
  have ended : (scan line).getLast? = some last := by simp [tokens]
  obtain ⟨start, read, ⟨front, typed, -⟩, -⟩ := layout.exists_last (.whole line) ended
  obtain ⟨isWord, still⟩ : last.isWord = true ∧ last.terminated = false := by
    simpa [isUnterminated] using unclosed
  obtain ⟨-, touching⟩ := read.unterminated still
  obtain ⟨token, opened⟩ := read.of_isUnterminated unclosed
  obtain ⟨word, spelled⟩ := Spelling.exists_unclosed opened
  have place : last.span.start = start := by rw [read.span_eq]
  rw [touching, List.append_nil] at typed
  refine ⟨front, word, start, by rw [spelled, typed], by rw [spelled]; exact token, ?_⟩
  intro more nothing
  have grown := (tokens ▸ layout).scanFrom_grown (.whole line) (tokens ▸ touching) more
  rw [scan, grown, place, read.scanFrom_raw_append isWord, ← spelled, nothing, scanFrom_nil]

end Token

namespace Statement

open Position (Behind)

/-- Tokens in front of others are all sound and read, or one of them decides. -/
theorem sound_or_refused {before : List Token} {position : Position}
    (behind : Behind before position) (front : List Token) :
    ((∀ cursor ∈ Cursor.allFrom before front, cursor.Sound) ∧
      ∃ onward add, ∀ back,
        ofTokensAfter position (front ++ back) = (ofTokensAfter onward back).map add) ∨
    ∃ cursor ∈ Cursor.allFrom before front, ∃ defect, cursor.Faulty defect ∧
      ∀ back, ofTokensAfter position (front ++ back) = .error defect := by
  induction front generalizing before position with
  | nil =>
      refine .inl ⟨by simp [Cursor.allFrom], position, id, fun back => ?_⟩
      rw [List.nil_append]
      cases ofTokensAfter position back <;> rfl
  | cons token front ih =>
      rw [Cursor.allFrom]
      by_cases sound : Cursor.Sound ⟨before, token, front⟩
      · obtain ⟨next, add, behind, step⟩ := exists_step behind sound
        rcases ih behind with ⟨later, onward, more, run⟩ | ⟨cursor, member, defect, faulty, run⟩
        · refine .inl ⟨List.forall_mem_cons.mpr ⟨sound, later⟩, onward, add ∘ more, ?_⟩
          intro back
          rw [List.cons_append, step, run]
          cases ofTokensAfter onward back <;> rfl
        · refine .inr ⟨cursor, .tail _ member, defect, faulty, fun back => ?_⟩
          rw [List.cons_append, step, run]
          rfl
      · obtain ⟨defect, faulty⟩ := Classical.not_forall_not.mp sound
        refine .inr ⟨_, .head _, defect, faulty, fun back => ?_⟩
        have faulty : Cursor.Faulty ⟨before, token, front ++ back⟩ defect := by
          cases faulty with
          | unterminated word unclosed => exact .unterminated word unclosed
          | broken half => exact .broken half
          | missing operator kind due => exact .missing operator kind due
        exact ofTokensAfter_of_faulty behind faulty

end Statement

/-- The quote behind the line completes its last word and nothing else. -/
structure Completes (line : Text) (earlier : List Token) (last : Token) (quote : Quote) :
    Prop where
  scanned : scan (line ++ [quote.char]) = earlier ++ [last.closedBy quote]
  closed : ∀ opened span,
    ofTokens (scan (line ++ [quote.char])) ≠ .error (.unterminated opened span)
  accepted : (∃ statements, ofTokens (scan (line ++ [quote.char])) = .ok statements) ↔
    ∀ cursor ∈ Cursor.all earlier, cursor.Sound
  alone : ofTokens (scan line) = .error (.unterminated last.quote last.span) ↔
    ∀ cursor ∈ Cursor.all earlier, cursor.Sound
  kept : ∀ defect, ofTokens (scan line) = .error defect →
    defect ≠ .unterminated last.quote last.span →
    ofTokens (scan (line ++ [quote.char])) = .error defect

namespace Statement

variable {earlier : List Token} {token : Token}

theorem exists_ofTokensAfter_word (position : Position) (complete : token.isComplete = true) :
    ∃ statements, ofTokensAfter position [token] = .ok statements := by
  rw [ofTokensAfter_word complete]
  cases position <;> exact ⟨_, rfl⟩

theorem ofTokensAfter_unterminated (position : Position)
    (unclosed : token.isUnterminated = true) :
    ofTokensAfter position [token] = .error (.unterminated token.quote token.span) := by
  obtain ⟨word, still⟩ : token.kind = .word ∧ token.terminated = false := by
    simpa [Token.isUnterminated, Token.isWord] using unclosed
  cases position <;> simp [ofTokensAfter, word, still]

end Statement

theorem Cursor.Faulty.ne_unterminated {cursor : Cursor} {defect : Defect}
    (faulty : cursor.Faulty defect) (terminated : cursor.token.terminated = true)
    (quote : Option Quote) (span : Span) : defect ≠ .unterminated quote span := by
  rintro rfl
  cases faulty with
  | unterminated word unclosed => simp [terminated] at unclosed

open Statement in
theorem Completes.of_scanned {line : Text} {earlier : List Token} {last : Token} {quote : Quote}
    (tokens : scan line = earlier ++ [last]) (unclosed : last.isUnterminated = true)
    (scanned : scan (line ++ [quote.char]) = earlier ++ [last.closedBy quote]) :
    Completes line earlier last quote := by
  have terminated := (tokens ▸ layout_scan line).terminated_of_earlier
  have complete := Token.isComplete_closedBy quote unclosed
  rcases sound_or_refused .start earlier with
    ⟨sound, onward, add, run⟩ | ⟨cursor, member, defect, faulty, run⟩
  · obtain ⟨statements, read⟩ := exists_ofTokensAfter_word onward complete
    have before : ofTokens (scan line) = .error (.unterminated last.quote last.span) := by
      rw [tokens, ofTokens, run, ofTokensAfter_unterminated onward unclosed]
      rfl
    have behind : ofTokens (scan (line ++ [quote.char])) = .ok (add statements) := by
      rw [scanned, ofTokens, run, read]
      rfl
    constructor
    case scanned => exact scanned
    case closed => simp [behind]
    case accepted => exact ⟨fun _ => sound, fun _ => ⟨_, behind⟩⟩
    case alone => exact ⟨fun _ => sound, fun _ => before⟩
    case kept =>
      intro defect refused other
      rw [before] at refused
      exact absurd (Except.error.inj refused).symm other
  · have before : ofTokens (scan line) = .error defect := by rw [tokens, ofTokens, run]
    have behind : ofTokens (scan (line ++ [quote.char])) = .error defect := by
      rw [scanned, ofTokens, run]
    have unsound : ¬ ∀ cursor ∈ Cursor.all earlier, cursor.Sound :=
      fun sound => sound cursor member defect faulty
    have other := faulty.ne_unterminated
      (terminated _ (Cursor.mem_iff_exists_token.mpr ⟨cursor, member, rfl⟩))
    constructor
    case scanned => exact scanned
    case closed =>
      intro opened span refused
      exact other opened span (Except.error.inj (behind.symm.trans refused))
    case accepted =>
      refine ⟨?_, fun sound => absurd sound unsound⟩
      intro accepted
      obtain ⟨statements, read⟩ := accepted
      simp [behind] at read
    case alone =>
      refine ⟨fun refused => ?_, fun sound => absurd sound unsound⟩
      exact absurd (Except.error.inj (before.symm.trans refused)) (other _ _)
    case kept =>
      intro defect' refused _
      rw [behind, ← before, refused]

/-- The quote that is open at the end of a line completes the last word, unless a lone backslash
escapes it there. -/
theorem closing_quote_completes_the_word {line : Text} {earlier : List Token} {last : Token}
    (tokens : scan line = earlier ++ [last]) (unclosed : last.isUnterminated = true) :
    ∃ quote, (Word.read none last.raw).stillOpen = some quote ∧
      (¬ (quote = .double ∧ line.endsInLoneBackslash = true) →
        Completes line earlier last quote) ∧
      (quote = .double ∧ line.endsInLoneBackslash = true →
        ∃ grown, scan (line ++ [quote.char]) = earlier ++ [grown] ∧
          grown.isUnterminated = true) := by
  obtain ⟨front, word, start, rfl, rfl, typed⟩ := Token.exists_read_last tokens unclosed
  refine ⟨word.quote, ?_, ?_, ?_⟩
  · obtain ⟨content, opened⟩ := word.read_text
    simp [opened, Word.toToken]
  · intro unescaped
    have closes (double : word.quote = .double) : isClosed word.inside = true := by
      have lone := word.endsInLoneBackslash_append front double
      cases closed : isClosed word.inside with
      | true => rfl
      | false => exact absurd ⟨double, by rw [lone, closed]; rfl⟩ unescaped
    obtain ⟨content, opened, closed⟩ := word.exists_read_text_append closes
    apply Completes.of_scanned tokens unclosed
    rw [typed [word.quote.char] (by rw [closed]), closed, opened]
    simp [Word.toToken, Token.closedBy, Quote.utf8Size_char, Nat.add_assoc]
  · rintro ⟨double, lone⟩
    have shut : isClosed word.inside = false := by
      rw [word.endsInLoneBackslash_append front double] at lone
      simpa using lone
    obtain ⟨content, longer⟩ := (word.appendEscaped shut double).read_text
    rw [word.text_appendEscaped shut double] at longer
    refine ⟨_, typed [word.quote.char] (by rw [longer]), ?_⟩
    rw [longer]
    rfl

theorem quote_behind_two_backslashes_completes_the_word :
    scan ['x', ' ', '\'', 'é', '\'', '"', '\\', '\\'] =
      [⟨.word, ['x'], ['x'], none, true, ⟨0, 1⟩⟩] ++
        [⟨.word, ['é', '\\'], ['\'', 'é', '\'', '"', '\\', '\\'], some .single, false,
          ⟨2, 9⟩⟩] ∧
    (Word.read none ['\'', 'é', '\'', '"', '\\', '\\']).stillOpen = some .double ∧
    Completes ['x', ' ', '\'', 'é', '\'', '"', '\\', '\\']
      [⟨.word, ['x'], ['x'], none, true, ⟨0, 1⟩⟩]
      ⟨.word, ['é', '\\'], ['\'', 'é', '\'', '"', '\\', '\\'], some .single, false, ⟨2, 9⟩⟩
      .double := by
  have tokens : scan ['x', ' ', '\'', 'é', '\'', '"', '\\', '\\'] =
      [⟨.word, ['x'], ['x'], none, true, ⟨0, 1⟩⟩] ++
        [⟨.word, ['é', '\\'], ['\'', 'é', '\'', '"', '\\', '\\'], some .single, false,
          ⟨2, 9⟩⟩] := by
    decide +kernel
  have double : (Word.read none ['\'', 'é', '\'', '"', '\\', '\\']).stillOpen =
      some .double := by
    decide +kernel
  obtain ⟨quote, opened, completes, -⟩ := closing_quote_completes_the_word tokens rfl
  obtain rfl : quote = .double := Option.some.inj (opened.symm.trans double)
  exact ⟨tokens, double, completes (by decide +kernel)⟩

end LineShell
