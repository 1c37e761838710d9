import LineShell.Proofs.Essence
import LineShell.Proofs.History
import LineShell.Proofs.Layout
import LineShell.Proofs.Quoting

namespace LineShell

/-! Renderings read back.

A rendering lists the words and operators of its statements with single blanks
between them. Each of them reads as what it stands for. A word that cannot be quoted
is written as it was typed; only at the end of a line does that depend on what
follows, and there nothing follows in the rendering either.
-/

theorem Text.blank_join {pieces : List Text} (nonempty : pieces ≠ []) :
    ' ' :: Text.join [' '] pieces = pieces.flatMap (' ' :: ·) := by
  induction pieces with
  | nil => exact absurd rfl nonempty
  | cons piece pieces ih =>
      cases pieces with
      | nil => simp [Text.join]
      | cons next pieces =>
          rw [List.flatMap_cons, ← ih (by simp)]
          simp [Text.join]

theorem Text.join_blank_cons (piece : Text) (pieces : List Text) :
    Text.join [' '] (piece :: pieces) = piece ++ pieces.flatMap (' ' :: ·) := by
  have blank := Text.blank_join (List.cons_ne_nil piece pieces)
  rw [List.flatMap_cons, List.cons_append] at blank
  exact (List.cons.inj blank).2

namespace Statement

def Item.text : Item → Text
  | .word token => renderWord token
  | .operator between => between.text

theorem render_items (statement : Statement) :
    statement.render = Text.join [' '] (statement.items.map Item.text) := by
  obtain ⟨command, arguments, next⟩ := statement
  cases next <;>
    simp [render, items, words, Item.text, Text.join_blank_cons, Function.comp_def]

/-- The renderings of statements, joined, list everything in them. -/
theorem join_render (statements : List Statement) :
    Text.join [' '] (statements.map render) =
      Text.join [' '] ((flatten statements).map Item.text) := by
  have blanks : (statements.map render).flatMap (' ' :: ·) =
      ((flatten statements).map Item.text).flatMap (' ' :: ·) := by
    induction statements with
    | nil => rfl
    | cons statement statements ih =>
        rw [List.map_cons, List.flatMap_cons, ih, render_items,
          Text.blank_join (by simp [items, words]), ← List.flatMap_append, ← List.map_append]
        rfl
  cases statements with
  | nil => rfl
  | cons statement statements =>
      rw [← Text.blank_join (by simp), ← Text.blank_join (by simp [flatten, items, words])]
        at blanks
      exact (List.cons.inj blanks).2

end Statement

namespace Token

/-- Rendered before `rest`, the token reads as one of the same essence. -/
def ReadsAgain (token : Token) (rest : Text) : Prop :=
  ∀ start, ∃ again stop,
    scanFrom start (token.item.text ++ rest) = again :: scanFrom stop rest ∧
      again.essence = token.essence

theorem readsAgain_operator (operator : Operator) (start : Nat) (rest : Text) :
    (ofOperator (.operator operator) operator.text start).ReadsAgain rest :=
  fun _ => ⟨_, _, scanFrom_operator operator, rfl⟩

/-- A word that is rendered the way it can be spelled reads again. -/
theorem readsAgain_of_spelling {token : Token} {rest : Text} (spelling : Spelling)
    (complete : token.isComplete = true)
    (typed : Statement.renderWord token = spelling.text)
    (value : token.content = spelling.value) (ends : EndsWord rest) :
    token.ReadsAgain rest := by
  intro start
  obtain ⟨word, terminated⟩ : token.isWord = true ∧ token.terminated = true := by
    simpa [isComplete] using complete
  have kind := kind_of_isWord word
  have rendered : Statement.renderWord (spelling.token start) = spelling.text := by
    rw [Statement.renderWord, value] at typed
    rw [Statement.renderWord]
    cases quoted : ShellQuoted.quote? spelling.value with
    | none => simp [Spelling.token, quoted]
    | some text => simpa [Spelling.token, quoted] using typed
  refine ⟨spelling.token start, start + spelling.text.byteSize, ?_, ?_⟩
  · rw [item_of_isWord word, Statement.Item.text, typed]
    exact scanFrom_spelling spelling ends
  · simp only [essence, rendered, typed, value, kind, terminated]
    rfl

/-- A complete word reads again at the end of a word. If it came last it may have to
come last again. -/
theorem readsAgain_word {c : Char} {text rest : Text} (start : Nat)
    (starts : endsWord c = false) (uncommented : c ≠ '#')
    (closed : (Word.read none (c :: text)).stillOpen = none) (ends : EndsWord rest)
    (last : (Word.read none (c :: text)).rest = [] → rest = []) :
    ((Word.read none (c :: text)).toToken start).ReadsAgain rest := by
  have complete : ((Word.read none (c :: text)).toToken start).isComplete = true := by
    simp [closed]
  obtain ⟨spelling, value, typed⟩ :=
    Word.spelled_or_ends_in_backslash starts uncommented closed
  cases quoted : ShellQuoted.quote? (Word.read none (c :: text)).content with
  | some quotation =>
      obtain ⟨quotation, rfl, denotes⟩ := ShellQuoted.exists_spelling_of_quote? quoted
      refine readsAgain_of_spelling quotation complete ?_ denotes.symm ends
      simp [Statement.renderWord, Word.toToken, quoted]
  | none =>
      have rendered : Statement.renderWord ((Word.read none (c :: text)).toToken start) =
          (Word.read none (c :: text)).raw := by
        simp [Statement.renderWord, Word.toToken, quoted]
      rcases typed with ⟨_, raw, _⟩ | ⟨_, _, _, nothing⟩
      · exact readsAgain_of_spelling spelling complete (rendered.trans raw.symm) value.symm ends
      -- The backslash at the end of the line is read from the same line again.
      · obtain rfl := last nothing
        have whole := Word.raw_append_rest none (c :: text)
        rw [nothing, List.append_nil] at whole
        intro start'
        refine ⟨(Word.read none (c :: text)).toToken start',
          start' + (Word.read none (c :: text)).raw.byteSize, ?_, rfl⟩
        rw [item_of_isWord rfl, Statement.Item.text, rendered, whole, List.append_nil,
          scanFrom_word starts uncommented, nothing, whole]

def rendering (tokens : List Token) : Text :=
  Text.join [' '] (tokens.map fun token => token.item.text)

theorem scanFrom_rendering_cons {token : Token} {tokens : List Token}
    (again : ∀ rest, EndsWord rest → (tokens = [] → rest = []) → token.ReadsAgain rest)
    (more : ∀ start, (scanFrom start (rendering tokens)).map essence = tokens.map essence)
    (start : Nat) :
    (scanFrom start (rendering (token :: tokens))).map essence =
      (token :: tokens).map essence := by
  rw [rendering, List.map_cons, Text.join_blank_cons]
  cases tokens with
  | nil =>
      obtain ⟨read, stop, found, same⟩ := again [] .nil (fun _ => rfl) start
      rw [List.map_nil, List.flatMap_nil, found, scanFrom_nil]
      simp [same]
  | cons next tokens =>
      let blank : Gap := ⟨⟨[' '], by simp [Text.isBlank]⟩, by simp⟩
      have rest : ((next :: tokens).map fun token => token.item.text).flatMap (' ' :: ·) =
          blank.text ++ rendering (next :: tokens) := (Text.blank_join (by simp)).symm
      obtain ⟨read, stop, found, same⟩ :=
        again _ (.gap blank (rendering (next :: tokens))) (by simp) start
      rw [rest, found, List.map_cons, List.map_cons, same, scanFrom_blanks, more]

/-- The tokens of a line read again from their rendering. -/
theorem scanFrom_rendering {line : Text} {start : Nat}
    (accepted : ∀ token ∈ scanFrom start line,
      token.isComplete = true ∨ token.isOperator = true) (start' : Nat) :
    (scanFrom start' (rendering (scanFrom start line))).map essence =
      (scanFrom start line).map essence := by
  have layout := layout_scanFrom start line
  generalize scanFrom start line = tokens at layout accepted
  induction layout generalizing start' with
  | ending => simp [rendering, Text.join, scanFrom_nil]
  | token blanks read onward ih =>
      obtain ⟨here, accepted⟩ := List.forall_mem_cons.mp accepted
      have more := fun start => ih start accepted
      cases read with
      | operator operator =>
          exact scanFrom_rendering_cons (fun rest _ _ => readsAgain_operator operator _ rest)
            more start'
      | broken c => simp [isOperator, operator?, ofOperator, isComplete, isWord] at here
      | word c text starts uncommented =>
          have closed : (Word.read none (c :: text)).stillOpen = none := by
            simpa [isOperator, operator?, Word.toToken, isComplete, isWord] using here
          refine scanFrom_rendering_cons (fun behind ends last => ?_) more start'
          exact readsAgain_word _ starts uncommented closed ends fun nothing =>
            last (onward.eq_nil nothing)

end Token

open Statement

/-- The rendering of an accepted line is accepted, says and renders the same, and
does the same when it runs. Only the summary in the log quotes the line itself. -/
theorem renderings_mean_the_same {line : Text} {statements : List Statement}
    (accepted : ofTokens (Token.scan line) = .ok statements) :
    ∃ again, ofTokens (Token.scan (Text.join [' '] (statements.map render))) = .ok again ∧
      again.map sentence = statements.map sentence ∧
      again.map render = statements.map render ∧
      ∀ (tools : Tools) (journal : Journal), ∃ (outcome : Outcome) (after : Journal),
        tools.runLine line journal =
          (outcome, after.log .info .logging (outcome.summary line)) ∧
        tools.runLine (Text.join [' '] (statements.map render)) journal =
          (outcome, after.log .info .logging
            (outcome.summary (Text.join [' '] (statements.map render)))) := by
  have items : flatten statements = (Token.scan line).map Token.item := by
    simpa [Position.items] using flatten_of_accepted (by simp [Position.Unclosed]) accepted
  have rendering : Text.join [' '] (statements.map render) =
      Token.rendering (Token.scan line) := by
    rw [join_render, items, List.map_map]
    rfl
  have tokens : (Token.scan (Token.rendering (Token.scan line))).map Token.essence =
      (Token.scan line).map Token.essence :=
    Token.scanFrom_rendering (complete_or_operator accepted) 0
  obtain ⟨again, accepted_again, same⟩ :=
    ofTokensAfter_congr .start tokens.symm accepted
  rw [rendering]
  refine ⟨again, accepted_again, map_sentence_congr same, map_render_congr same, ?_⟩
  intro tools journal
  refine ⟨_, _, tools.runLine_of_accepted accepted journal, ?_⟩
  rw [tools.runLine_of_accepted accepted_again journal, Tools.execute, Tools.execute,
    tools.executeAfter_congr same]

theorem unquotable_word_renders_as_typed :
    ∃ again, ofTokens (Token.scan ['\x00', '\\']) = .ok again ∧
      again.map sentence = [⟨['\x00', '\\'], [], none⟩] := by
  have accepted : ofTokens (Token.scan ['\x00', '\\']) =
      .ok [⟨⟨.word, ['\x00', '\\'], ['\x00', '\\'], none, true, ⟨0, 2⟩⟩, [], none⟩] := by
    rw [Token.scan_word (by decide) (by decide) rfl]
    rfl
  obtain ⟨again, accepted_again, sentences, _⟩ := renderings_mean_the_same accepted
  exact ⟨again, accepted_again, sentences⟩

end LineShell
