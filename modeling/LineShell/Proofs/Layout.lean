import LineShell.Cursor
import LineShell.Proofs.Spelling

namespace LineShell

/-! How the tokens of a line lie in it.

A line is blanks and tokens by turns. Behind the last token there are blanks and
perhaps a comment. Every token stands at the place that its span tells, and nothing
of the line is lost between them.
-/

namespace Text

theorem byteSize_pos {text : Text} (nonempty : text ≠ []) : 0 < text.byteSize := by
  obtain ⟨c, rest, rfl⟩ := List.exists_cons_of_ne_nil nonempty
  exact Nat.add_pos_left c.utf8Size_pos _

/-- From a place on, nothing but `rest` is left of the line. -/
def RestAt (line : Text) (start : Nat) (rest : Text) : Prop :=
  ∃ front, front ++ rest = line ∧ front.byteSize = start

namespace RestAt

variable {line left right rest : Text} {start : Nat}

theorem whole (line : Text) : line.RestAt 0 line := ⟨[], rfl, rfl⟩

theorem skip (here : line.RestAt start (left ++ right)) :
    line.RestAt (start + left.byteSize) right := by
  obtain ⟨front, typed, place⟩ := here
  exact ⟨front ++ left, by simpa using typed, by simp [place]⟩

theorem append (here : line.RestAt start rest) (more : Text) :
    (line ++ more).RestAt start (rest ++ more) := by
  obtain ⟨front, rfl, place⟩ := here
  exact ⟨front, by simp, place⟩

theorem dropBytes? (here : line.RestAt start rest) : line.dropBytes? start = some rest := by
  obtain ⟨front, rfl, rfl⟩ := here
  exact dropBytes?_byteSize_append front rest

theorem slice? (here : line.RestAt start (left ++ right)) :
    line.slice? start (start + left.byteSize) = some left := by
  obtain ⟨front, rfl, rfl⟩ := here
  rw [← List.append_assoc]
  exact slice?_append front left right

theorem slice?_append (here : line.RestAt start (left ++ right)) (more : Text) :
    (line ++ more).slice? start (start + left.byteSize) = some left := by
  have there := here.append more
  rw [List.append_assoc] at there
  exact there.slice?

theorem byteSize (here : line.RestAt start rest) : line.byteSize = start + rest.byteSize := by
  obtain ⟨front, rfl, rfl⟩ := here
  exact byteSize_append front rest

end RestAt

end Text

namespace Token.Word

@[simp] theorem rest_after (word : Word) (raw content : Text) :
    (word.after raw content).rest = word.rest := rfl

theorem rest_of_stillOpen {quotes : Option Quote} {text : Text}
    (unclosed : (read quotes text).stillOpen ≠ none) : (read quotes text).rest = [] := by
  fun_induction read quotes text <;> simp_all [stop, after, afterOpening]

theorem exists_raw_eq_cons {c : Char} (text : Text) (starts : endsWord c = false) :
    ∃ more, (read none (c :: text)).raw = c :: more := by
  obtain ⟨d, more, raw⟩ := List.exists_cons_of_ne_nil (raw_ne_nil text starts)
  have whole := raw_append_rest none (c :: text)
  rw [raw] at whole
  obtain ⟨rfl, -⟩ := List.cons.inj whole
  exact ⟨more, raw⟩

/-- With something behind the word, more text changes nothing in it. -/
theorem read_append {quotes : Option Quote} {text : Text}
    (behind : (read quotes text).rest ≠ []) (more : Text) :
    read quotes (text ++ more) =
      { read quotes text with rest := (read quotes text).rest ++ more } := by
  fun_induction read quotes text with
  | case1 | case2 | case11 => simp [stop] at behind
  | case3 escaped rest ih =>
      rw [List.cons_append, List.cons_append, read_escaped, ih behind]
      rfl
  | case4 rest _ ih | case5 rest _ _ ih =>
      rw [List.cons_append, read_opening, ih behind]
      rfl
  | case6 c rest _ _ _ ends =>
      rw [List.cons_append, read_of_ends (by simpa [EndsWord] using ends)]
      rfl
  | case7 c rest notBackslash notSingle notDouble inside ih =>
      have plain : Spelling.isBare c = true := by
        simp [Spelling.isBare, inside, notBackslash, notSingle, notDouble]
      rw [List.cons_append, read_bare plain, ih behind]
      rfl
  | case8 rest ih | case10 rest ih =>
      rw [List.cons_append, read_closing, ih behind]
      rfl
  | case9 c rest other ih =>
      rw [List.cons_append, read_single_cons other, ih behind]
      rfl
  | case12 next rest escapable _ ih =>
      rw [List.cons_append, List.cons_append, read_double_escaped escapable, ih behind]
      rfl
  | case13 next rest literal _ ih =>
      rw [List.cons_append, List.cons_append, read_double_backslash literal,
        ← List.cons_append, ih behind]
      rfl
  | case14 c rest notQuote notBackslash ih =>
      rw [List.cons_append, read_double_cons notQuote notBackslash, ih behind]
      rfl

end Token.Word

namespace Token

/-- Behind `rest` there may be anything that follows the token in its line. -/
inductive ReadAt (start : Nat) : Token → Text → Prop where
  | operator (operator : Operator) (rest : Text) :
      ReadAt start (ofOperator (.operator operator) operator.text start) rest
  | broken (c : Char) (rest : Text) (half : c = '&' ∨ c = '|') (lone : rest.head? ≠ some c) :
      ReadAt start (ofOperator .brokenOperator [c] start) rest
  | word (c : Char) (text : Text) (starts : endsWord c = false) (uncommented : c ≠ '#') :
      ReadAt start ((Word.read none (c :: text)).toToken start) (Word.read none (c :: text)).rest

namespace ReadAt

variable {start : Nat} {token : Token} {rest : Text}

theorem span_eq (read : ReadAt start token rest) :
    token.span = ⟨start, start + token.raw.byteSize⟩ := by
  cases read <;> rfl

theorem raw_ne_nil (read : ReadAt start token rest) : token.raw ≠ [] := by
  cases read with
  | operator operator => cases operator <;> simp [ofOperator, Operator.text]
  | broken c => simp [ofOperator]
  | word c text starts => exact Word.raw_ne_nil text starts

theorem unterminated (read : ReadAt start token rest) (unclosed : token.terminated = false) :
    token.isWord = true ∧ rest = [] := by
  cases read with
  | operator | broken => simp [ofOperator] at unclosed
  | word c text starts =>
      refine ⟨rfl, Word.rest_of_stillOpen ?_⟩
      intro closed
      simp [Word.toToken, closed] at unclosed

/-- Another text begins with the same token if something is behind it. -/
theorem scanFrom_append (read : ReadAt start token rest) (behind : rest ≠ []) (more : Text) :
    scanFrom start (token.raw ++ (rest ++ more)) =
      token :: scanFrom token.span.stop (rest ++ more) := by
  cases read with
  | operator operator => exact scanFrom_operator operator
  | broken c rest half lone =>
      have still : (rest ++ more).head? ≠ some c := by
        cases rest with
        | nil => exact absurd rfl behind
        | cons d rest => exact lone
      exact scanFrom_broken half still
  | word c text starts uncommented =>
      have whole := Word.raw_append_rest none (c :: text)
      have same := Word.read_append behind more
      rw [Word.toToken, ← List.append_assoc, whole, List.cons_append,
        scanFrom_word starts uncommented, ← List.cons_append, same]
      rfl

theorem raw_head (read : ReadAt start token rest) :
    ∃ c behind, token.raw = c :: behind ∧ Text.isBlank c = false ∧ c ≠ '#' := by
  cases read with
  | operator operator => cases operator <;> exact ⟨_, _, rfl, by decide, by decide⟩
  | broken c rest half => rcases half with rfl | rfl <;> exact ⟨_, _, rfl, by decide, by decide⟩
  | word c text starts uncommented =>
      obtain ⟨behind, raw⟩ := Word.exists_raw_eq_cons text starts
      refine ⟨c, behind, raw, ?_, uncommented⟩
      simp only [endsWord, Bool.or_eq_false_iff] at starts
      exact starts.1

/-- Whatever follows its text, a token is read there. -/
theorem exists_scanFrom (read : ReadAt start token rest) (more : Text) :
    ∃ grown later, scanFrom start (token.raw ++ more) = grown :: later ∧
      grown.span.start = start := by
  obtain ⟨c, behind, raw, unblank, uncommented⟩ := read.raw_head
  rw [raw, List.cons_append, scanFrom_cons]
  by_cases operator : isOperatorChar c = true
  · simp [unblank, uncommented, operator, ofOperator]
  · simp [unblank, uncommented, operator, Word.toToken]

theorem restAt {line : Text} (read : ReadAt start token rest)
    (here : line.RestAt start (token.raw ++ rest)) : line.RestAt token.span.stop rest := by
  rw [read.span_eq]
  exact here.skip

end ReadAt

end Token

/-- A text that begins at a place, with its tokens. -/
inductive Layout : Nat → Text → List Token → Prop where
  | ending {start : Nat} (blanks : Blanks) {remark : Text}
      (quiet : remark = [] ∨ remark.head? = some '#') :
      Layout start (blanks.text ++ remark) []
  | token {start : Nat} (blanks : Blanks) {token : Token} {rest : Text} {tokens : List Token}
      (read : token.ReadAt (start + blanks.text.byteSize) rest)
      (onward : Layout token.span.stop rest tokens) :
      Layout start (blanks.text ++ (token.raw ++ rest)) (token :: tokens)

open Token (Word scanFrom) in
theorem layout_scanFrom (start : Nat) (text : Text) : Layout start text (scanFrom start text) := by
  -- What is left behind a word comes out of reading it; only its length is known to decrease.
  induction length : text.length using Nat.strongRecOn generalizing text start with
  | _ length ih =>
      subst length
      cases Token.front text with
      | nothing blanks =>
          have bare : Layout start (blanks.text ++ []) [] := .ending blanks (.inl rfl)
          rwa [List.append_nil, ← @Token.scanFrom_nothing start blanks] at bare
      | comment blanks rest =>
          rw [Token.scanFrom_blanks, Token.scanFrom_comment]
          exact .ending blanks (.inr rfl)
      | operator blanks operator rest =>
          rw [Token.scanFrom_blanks, Token.scanFrom_operator]
          have shorter : rest.length < (blanks.text ++ (operator.text ++ rest)).length := by
            cases operator <;> simp [Operator.text] <;> omega
          exact .token blanks (.operator operator rest) (ih _ shorter _ _ rfl)
      | broken blanks c rest half lone =>
          rw [Token.scanFrom_blanks, Token.scanFrom_broken half lone]
          have shorter : rest.length < (blanks.text ++ c :: rest).length := by
            simp only [List.length_append, List.length_cons]
            omega
          exact .token blanks (.broken c rest half lone) (ih _ shorter _ _ rfl)
      | word blanks c rest starts uncommented =>
          have shorter : (Word.read none (c :: rest)).rest.length <
              (blanks.text ++ c :: rest).length := by
            have behind : (Word.read none (c :: rest)).rest.length < (c :: rest).length :=
              Word.rest_length_lt starts
            rw [List.length_append]
            omega
          rw [Token.scanFrom_blanks, Token.scanFrom_word starts uncommented]
          have onward := ih _ shorter (start + blanks.text.byteSize +
            (Word.read none (c :: rest)).raw.byteSize) _ rfl
          have whole := Word.raw_append_rest none (c :: rest)
          have parts := Layout.token blanks (.word c rest starts uncommented) onward
          rwa [Word.toToken, whole] at parts

theorem layout_scan (line : Text) : Layout 0 line (Token.scan line) := layout_scanFrom 0 line

theorem Cursor.trailing_singleton {token : Token} {line rest : Text}
    (behind : line.RestAt token.span.stop rest) : trailing [token] line = rest := by
  simp [trailing, behind.dropBytes?]

theorem Cursor.trailing_cons {tokens : List Token} (token : Token) (something : tokens ≠ [])
    (line : Text) : trailing (token :: tokens) line = trailing tokens line := by
  cases tokens with
  | nil => exact absurd rfl something
  | cons next tokens => simp [trailing]

namespace Layout

variable {start : Nat} {text line : Text} {token next : Token} {tokens : List Token}

theorem placed (layout : Layout start text tokens) (here : line.RestAt start text) :
    ∀ token ∈ tokens, ∃ place rest,
      token.ReadAt place rest ∧ line.RestAt place (token.raw ++ rest) := by
  induction layout with
  | ending => simp
  | token blanks read onward ih =>
      have behind := read.restAt here.skip
      exact List.forall_mem_cons.mpr ⟨⟨_, _, read, here.skip⟩, ih behind⟩

theorem start_le (layout : Layout start text tokens) :
    ∀ token ∈ tokens, start ≤ token.span.start := by
  induction layout with
  | ending => simp
  | token blanks read onward ih =>
      have place := read.span_eq
      refine List.forall_mem_cons.mpr ⟨by simp [place], ?_⟩
      intro other member
      have behind := ih other member
      rw [place] at behind
      simp only at behind
      omega

theorem ordered (layout : Layout start text tokens) :
    tokens.Pairwise (fun left right => left.span.stop ≤ right.span.start) := by
  induction layout with
  | ending => exact .nil
  | token blanks read onward ih => exact .cons onward.start_le ih

theorem eq_nil (layout : Layout start text tokens) (nothing : text = []) : tokens = [] := by
  cases layout with
  | ending => rfl
  | token blanks read => simp [read.raw_ne_nil] at nothing

theorem ne_nil (layout : Layout start text (token :: tokens)) : text ≠ [] := by
  intro nothing
  exact absurd (layout.eq_nil nothing) (List.cons_ne_nil token tokens)

/-- A word with open quotes takes the rest of the line. -/
theorem unterminated (layout : Layout start text tokens) (here : line.RestAt start text)
    (before : List Token) :
    ∀ cursor ∈ Cursor.allFrom before tokens, cursor.token.terminated = false →
      cursor.isLast = true ∧ cursor.token.isWord = true ∧
        cursor.token.span.stop = line.byteSize := by
  induction layout generalizing before with
  | ending => simp [Cursor.allFrom]
  | token blanks read onward ih =>
      have behind := read.restAt here.skip
      rw [Cursor.allFrom]
      refine List.forall_mem_cons.mpr ⟨?_, ih behind _⟩
      intro unclosed
      obtain ⟨word, rfl⟩ := read.unterminated unclosed
      obtain rfl := onward.eq_nil rfl
      exact ⟨rfl, word, behind.byteSize.symm⟩

/-- The blanks before the first token, which more text at the end does not
change. -/
theorem exists_blanks (layout : Layout start text (token :: tokens))
    (here : line.RestAt start text) :
    ∃ blanks : Blanks, line.slice? start token.span.start = some blanks.text ∧
      ∀ more, (line ++ more).slice? start token.span.start = some blanks.text := by
  cases layout with
  | token blanks read onward =>
      rw [read.span_eq]
      exact ⟨blanks, here.slice?, here.slice?_append⟩

theorem gap_blank (layout : Layout start text tokens) (here : line.RestAt start text)
    (before : List Token) :
    ∀ cursor ∈ Cursor.allFrom before tokens, ∃ blanks : Blanks,
      cursor.gap line = blanks.text ∧ ∀ more, cursor.gap (line ++ more) = blanks.text := by
  induction layout generalizing before with
  | ending => simp [Cursor.allFrom]
  | @token start blanks token rest tokens read onward ih =>
      have behind := read.restAt here.skip
      rw [Cursor.allFrom]
      refine List.forall_mem_cons.mpr ⟨?_, ih behind _⟩
      cases tokens with
      | nil => exact ⟨⟨[], by simp⟩, rfl, fun _ => rfl⟩
      | cons next tokens =>
          obtain ⟨blanks, found, longer⟩ := onward.exists_blanks behind
          exact ⟨blanks, by simp [Cursor.gap, found], fun more => by simp [Cursor.gap, longer]⟩

theorem exists_last (layout : Layout start text tokens) (here : line.RestAt start text)
    {last : Token} (ended : tokens.getLast? = some last) :
    ∃ place, last.ReadAt place (Cursor.trailing tokens line) ∧
      line.RestAt place (last.raw ++ Cursor.trailing tokens line) ∧
      Layout last.span.stop (Cursor.trailing tokens line) [] := by
  induction layout with
  | ending => simp at ended
  | @token start blanks token rest tokens read onward ih =>
      have behind := read.restAt here.skip
      cases tokens with
      | nil =>
          obtain rfl : token = last := by simpa using ended
          rw [Cursor.trailing_singleton behind]
          exact ⟨_, read, here.skip, onward⟩
      | cons next tokens =>
          rw [List.getLast?_cons_cons] at ended
          rw [Cursor.trailing_cons token (by simp)]
          exact ih behind ended

/-- The texts of the tokens, with the blanks before and between them and what
follows the last, are the whole. -/
theorem rebuilt (layout : Layout start text (token :: tokens)) (here : line.RestAt start text)
    (before : List Token) :
    (line.slice? start token.span.start).getD [] ++
      (Cursor.allFrom before (token :: tokens)).flatMap
        (fun cursor => cursor.token.raw ++ cursor.gap line) ++
      Cursor.trailing (token :: tokens) line = text := by
  induction tokens generalizing start text token before with
  | nil =>
      cases layout with
      | @token _ blanks _ rest _ read onward =>
          have lead := here.slice?
          rw [Cursor.trailing_singleton (read.restAt here.skip)]
          simp [Cursor.allFrom, Cursor.gap, read.span_eq, lead]
  | cons next tokens ih =>
      cases layout with
      | @token _ blanks _ rest _ read onward =>
          have lead := here.slice?
          have again := ih onward (read.restAt here.skip) (token :: before)
          rw [Cursor.allFrom, List.flatMap_cons, Cursor.trailing_cons token (by simp), ← again]
          simp [Cursor.gap, read.span_eq, lead]

end Layout

/-- The tokens are parts of the line, and the line has no other parts than the tokens,
the blanks around them, and a comment. -/
structure Divides (tokens : List Token) (line : Text) : Prop where
  nonempty : ∀ token ∈ tokens, token.span.start < token.span.stop
  placed : ∀ token ∈ tokens, ∃ before after, line = before ++ token.raw ++ after ∧
    token.span = ⟨before.byteSize, (before ++ token.raw).byteSize⟩
  sliced : ∀ token ∈ tokens, token.span.slice line = token.raw
  ordered : tokens.Pairwise fun left right => left.span.stop ≤ right.span.start
  leading : tokens ≠ [] → ∀ c ∈ Cursor.leading tokens line, Text.isBlank c = true
  gaps : ∀ cursor ∈ Cursor.all tokens, ∀ c ∈ cursor.gap line, Text.isBlank c = true
  behind : ∃ (blanks : Blanks) (remark : Text), (remark = [] ∨ remark.head? = some '#') ∧
    (if tokens = [] then line else Cursor.trailing tokens line) = blanks.text ++ remark
  rebuilt : Cursor.leading tokens line ++
    (Cursor.all tokens).flatMap (fun cursor => cursor.token.raw ++ cursor.gap line) ++
    Cursor.trailing tokens line = line
  unterminated : ∀ cursor ∈ Cursor.all tokens, cursor.token.terminated = false →
    cursor.isLast = true ∧ cursor.token.isWord = true ∧
      cursor.token.span.stop = line.byteSize

namespace Layout

theorem quiet {start : Nat} {text : Text} (layout : Layout start text []) :
    ∃ (blanks : Blanks) (remark : Text), (remark = [] ∨ remark.head? = some '#') ∧
      text = blanks.text ++ remark := by
  cases layout with
  | ending blanks quiet => exact ⟨blanks, _, quiet, rfl⟩

theorem leading_eq {tokens : List Token} {line : Text} (layout : Layout 0 line tokens)
    (something : tokens ≠ []) : ∃ blanks : Blanks, Cursor.leading tokens line = blanks.text := by
  obtain ⟨token, more, rfl⟩ := List.exists_cons_of_ne_nil something
  obtain ⟨blanks, found, -⟩ := layout.exists_blanks (.whole line)
  exact ⟨blanks, by simp [Cursor.leading, found]⟩

end Layout

/-- Reading a line loses nothing of it and takes nothing twice. -/
theorem scan_divides_line (line : Text) : Divides (Token.scan line) line := by
  have layout := layout_scan line
  have whole : line.RestAt 0 line := .whole line
  constructor
  case nonempty =>
    intro token member
    obtain ⟨place, rest, read, -⟩ := layout.placed whole token member
    have positive := Text.byteSize_pos read.raw_ne_nil
    rw [read.span_eq]
    simp only
    omega
  case placed =>
    intro token member
    obtain ⟨place, rest, read, front, typed, size⟩ := layout.placed whole token member
    refine ⟨front, rest, by simp [← typed], ?_⟩
    rw [read.span_eq, Text.byteSize_append, size]
  case sliced =>
    intro token member
    obtain ⟨place, rest, read, here⟩ := layout.placed whole token member
    rw [read.span_eq, Span.slice, here.slice?, Option.getD_some]
  case ordered => exact layout.ordered
  case leading =>
    intro something
    obtain ⟨blanks, leading⟩ := layout.leading_eq something
    rw [leading]
    exact blanks.blank
  case gaps =>
    intro cursor member
    obtain ⟨blanks, gap, -⟩ := layout.gap_blank whole [] cursor member
    rw [gap]
    exact blanks.blank
  case behind =>
    split
    · next nothing => exact (nothing ▸ layout).quiet
    · next something =>
        have ended := List.getLast?_eq_some_getLast something
        obtain ⟨-, -, -, rest⟩ := layout.exists_last whole ended
        exact rest.quiet
  case rebuilt =>
    cases tokens : Token.scan line with
    | nil => simp [Cursor.leading, Cursor.all, Cursor.allFrom, Cursor.trailing]
    | cons token more => exact (tokens ▸ layout).rebuilt whole []
  case unterminated => exact layout.unterminated whole []

end LineShell
