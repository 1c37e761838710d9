import LineShell.Builtin.Standard
import LineShell.Proofs.Essence
import LineShell.Proofs.History
import LineShell.Proofs.Layout

namespace LineShell

/-! Two lines joined by an operator.

The operator ends the last word of the first line, unless that word ends in a backslash
that would escape the operator. So the tokens of both lines are those of the joint one,
and its statements are the statements of both.
-/

/-- The line ends in a backslash with whole pieces of a word before it, which escapes
nothing. -/
def EndsInBackslash (line : Text) : Prop :=
  ∃ last ∈ (Token.scan line).getLast?, ∃ pieces : List Spelling.Piece,
    last.raw = pieces.flatMap Spelling.Piece.text ++ ['\\']

open Token (EndsWord Word scanFrom)

namespace Token

variable {start : Nat} {token : Token} {rest : Text}

theorem ReadAt.exists_spelling (read : ReadAt start token rest) (complete : token.isComplete = true)
    (escaping : ∀ pieces : List Spelling.Piece,
      token.raw ≠ pieces.flatMap Spelling.Piece.text ++ ['\\']) :
    ∃ spelling : Spelling, token = spelling.token start := by
  cases read with
  | operator | broken => simp at complete
  | word c text starts uncommented =>
      have closed : (Word.read none (c :: text)).stillOpen = none := by simpa using complete
      obtain ⟨spelling, -, ⟨typed, -, ends⟩ | ⟨pieces, typed, -, nothing⟩⟩ :=
        Word.spelled_or_ends_in_backslash starts uncommented closed
      · refine ⟨spelling, ?_⟩
        have spelled := @scanFrom_spelling spelling start _ ends
        rw [typed, scanFrom_word starts uncommented] at spelled
        exact (List.cons.inj spelled).1
      · have whole := Word.raw_append_rest none (c :: text)
        rw [nothing, List.append_nil] at whole
        exact absurd (whole.trans typed) (escaping pieces)

/-- Where the text begins does not matter for what its tokens are. -/
theorem scanFrom_essence (start start' : Nat) (text : Text) :
    (scanFrom start text).map essence = (scanFrom start' text).map essence := by
  fun_induction scanFrom start text generalizing start' with
  | case1 => rw [scanFrom_nil]
  | case2 start c rest blank ih =>
      rw [scanFrom_cons, if_pos blank]
      exact ih _
  | case3 start rest unblank => rw [scanFrom_comment]
  | case4 start c rest unblank uncommented operator token ih =>
      rw [scanFrom_cons, if_neg unblank, if_neg uncommented, if_pos operator, List.map_cons,
        List.map_cons, ih]
      rfl
  | case5 start c rest unblank uncommented plain token ih =>
      rw [scanFrom_cons, if_neg unblank, if_neg uncommented, if_neg plain, List.map_cons,
        List.map_cons, ih]
      rfl

end Token

theorem Layout.scanFrom_operator {start : Nat} {text line : Text} {tokens : List Token}
    {last : Token} (layout : Layout start text tokens) (here : line.RestAt start text)
    (ended : tokens.getLast? = some last) (complete : last.isComplete = true)
    (escaping : ∀ pieces : List Spelling.Piece,
      last.raw ≠ pieces.flatMap Spelling.Piece.text ++ ['\\'])
    (blank : ∀ c ∈ Cursor.trailing tokens line, Text.isBlank c = true)
    (operator : Operator) (more : Text) :
    scanFrom start (text ++ (operator.text ++ more)) =
      tokens ++ Token.ofOperator (.operator operator) operator.text (start + text.byteSize) ::
        scanFrom (start + text.byteSize + operator.text.byteSize) more := by
  induction layout with
  | ending => simp at ended
  | @token start blanks token rest tokens read onward ih =>
      have behind := read.restAt here.skip
      have place : token.span.stop + rest.byteSize =
          start + (blanks.text ++ (token.raw ++ rest)).byteSize := by
        rw [read.span_eq]
        simp [Nat.add_assoc]
      rw [← place, List.append_assoc, Token.scanFrom_blanks, List.append_assoc]
      cases tokens with
      | nil =>
          obtain rfl : token = last := by simpa using ended
          rw [Cursor.trailing_singleton behind] at blank
          -- Where only the operator is behind it, the word could have gone on. That its
          -- text spells a word says that it does not.
          let after : Blanks := ⟨rest, blank⟩
          obtain ⟨spelling, rfl⟩ := read.exists_spelling complete escaping
          have ends : EndsWord (after.text ++ (operator.text ++ more)) :=
            .blanks after (.operator operator more)
          refine (Token.scanFrom_spelling spelling ends).trans ?_
          rw [Token.scanFrom_blanks, Token.scanFrom_operator]
          rfl
      | cons next tokens =>
          rw [List.getLast?_cons_cons] at ended
          rw [Cursor.trailing_cons token (List.cons_ne_nil next tokens)] at blank
          rw [read.scanFrom_append onward.ne_nil, ih behind ended blank]
          rfl

namespace Statement

variable {position : Position} {token : Token} {tokens more : List Token} {operator : Operator}
  {statements following : List Statement}

theorem ofTokensAfter_append_operator
    (accepted : ofTokensAfter position tokens = .ok statements) (something : statements ≠ [])
    (kind : token.kind = .operator operator)
    (onward : ofTokensAfter (.afterOperator operator token.span) more = .ok following) :
    ∃ front last, statements = front ++ [last] ∧
      ofTokensAfter position (tokens ++ token :: more) =
        .ok (front ++ { last with next := some operator } :: following) := by
  induction tokens generalizing position statements with
  | nil =>
      cases position with
      | start =>
          obtain rfl : [] = statements := by simpa [ofTokensAfter] using accepted
          exact absurd rfl something
      | afterOperator => simp [ofTokensAfter] at accepted
      | within statement =>
          obtain rfl : [statement] = statements := by simpa [ofTokensAfter] using accepted
          refine ⟨[], statement, rfl, ?_⟩
          rw [List.nil_append, ofTokensAfter_operator kind, onward]
          rfl
  | cons next tokens ih =>
      rcases ofTokensAfter_cons_eq_ok accepted with
        ⟨complete, accepted⟩ | ⟨between, statement, afterwards, between_kind, rfl, later, rfl⟩
      · rw [List.cons_append, ofTokensAfter_word complete]
        exact ih accepted something
      · have again := ne_nil_of_accepted (by simp) later
        obtain ⟨front, last, rfl, joined⟩ := ih later again
        refine ⟨{ statement with next := some between } :: front, last, rfl, ?_⟩
        rw [List.cons_append, ofTokensAfter_operator between_kind, joined]
        rfl

/-- Behind an operator a line goes on as it would begin. -/
theorem ofTokensAfter_afterOperator (operator : Operator) (span : Span) (something : tokens ≠ []) :
    ofTokensAfter (.afterOperator operator span) tokens = ofTokens tokens := by
  obtain ⟨token, tokens, rfl⟩ := List.exists_cons_of_ne_nil something
  cases kind : token.kind <;> simp [ofTokens, ofTokensAfter, kind, Position.addWord]

theorem isComplete_of_getLast? {last : Token}
    (accepted : ofTokensAfter position tokens = .ok statements)
    (ended : tokens.getLast? = some last) : last.isComplete = true := by
  induction tokens generalizing position statements with
  | nil => simp at ended
  | cons token tokens ih =>
      cases tokens with
      | nil =>
          obtain rfl : token = last := by simpa using ended
          rcases ofTokensAfter_cons_eq_ok accepted with ⟨complete, _⟩ | ⟨_, _, _, _, _, onward, _⟩
          · exact complete
          · simp [ofTokensAfter] at onward
      | cons next tokens =>
          rw [List.getLast?_cons_cons] at ended
          rcases ofTokensAfter_cons_eq_ok accepted with ⟨_, onward⟩ | ⟨_, _, _, _, _, onward, _⟩
          · exact ih onward ended
          · exact ih onward ended

/-- The statements of a joint line are those of its parts. -/
theorem exists_joint {line line' : Text} {first second : List Statement}
    (accepted : ofTokens (Token.scan line) = .ok first) (something : first ≠ [])
    (blank : ∀ c ∈ Cursor.trailing (Token.scan line) line, Text.isBlank c = true)
    (escaping : ¬ EndsInBackslash line)
    (accepted' : ofTokens (Token.scan line') = .ok second) (something' : second ≠ [])
    (operator : Operator) :
    ∃ front last following, first = front ++ [last] ∧
      following.map sentence = second.map sentence ∧
      ofTokens (Token.scan (line ++ (operator.text ++ line'))) =
        .ok (front ++ { last with next := some operator } :: following) := by
  have tokens : Token.scan line ≠ [] := by
    intro nothing
    rw [nothing] at accepted
    exact something (Except.ok.inj accepted).symm
  have ended := List.getLast?_eq_some_getLast tokens
  have complete := isComplete_of_getLast? accepted ended
  have joint := (layout_scan line).scanFrom_operator (.whole line) ended complete
    (fun pieces typed => escaping ⟨_, ended, pieces, typed⟩) blank operator line'
  obtain ⟨following, onward, same⟩ := ofTokensAfter_congr .start
    (Token.scanFrom_essence 0 (0 + line.byteSize + operator.text.byteSize) line') accepted'
  have tokens' : scanFrom (0 + line.byteSize + operator.text.byteSize) line' ≠ [] := by
    intro nothing
    rw [nothing] at onward
    obtain rfl := (Except.ok.inj onward).symm
    exact something' (by simpa using same.symm)
  rw [← ofTokens, ← ofTokensAfter_afterOperator operator _ tokens'] at onward
  have kind : (Token.ofOperator (.operator operator) operator.text (0 + line.byteSize)).kind =
      .operator operator := rfl
  obtain ⟨front, last, rfl, whole⟩ := ofTokensAfter_append_operator accepted something kind onward
  refine ⟨front, last, following, rfl, map_sentence_congr same, ?_⟩
  rw [Token.scan, joint]
  exact whole

end Statement

namespace Tools

open Statement (sentence)

variable {tools : Tools} {statement : Statement} {first second : List Statement}

theorem act_congr {statement' : Statement} (same : statement.sentence = statement'.sentence)
    (effects : Effects) : tools.act statement effects = tools.act statement' effects := by
  have name : statement.name = statement'.name := congrArg Sentence.name same
  have arguments : statement.argumentValues = statement'.argumentValues :=
    congrArg Sentence.arguments same
  rw [act, act, name, arguments]

theorem performAfter_congr (same : first.map sentence = second.map sentence) (last : Status)
    (gate : Option Operator) (effects : Effects) :
    tools.performAfter last gate first effects = tools.performAfter last gate second effects := by
  induction first generalizing second last gate effects with
  | nil =>
      obtain rfl : second = [] := by simpa using same.symm
      rfl
  | cons statement first ih =>
      cases second with
      | nil => simp at same
      | cons statement' second =>
          obtain ⟨here, same⟩ := List.cons.inj same
          have next : statement.next = statement'.next := congrArg Sentence.next here
          rw [performAfter, performAfter, act_congr here, next]
          split
          · split
            · exact ih same _ _ _
            · rfl
          · exact ih same _ _ _

/-- The operator before whatever follows the statements. -/
def gateBehind (gate : Option Operator) (statements : List Statement) : Option Operator :=
  statements.foldl (fun _ statement => statement.next) gate

theorem performAfter_append (last : Status) (gate : Option Operator) (effects : Effects) :
    tools.performAfter last gate (first ++ second) effects =
      match tools.performAfter last gate first effects with
      | (.completed status, effects) =>
          tools.performAfter status (gateBehind gate first) second effects
      | ended => ended := by
  induction first generalizing last gate effects with
  | nil => rfl
  | cons statement first ih =>
      rw [List.cons_append, performAfter, performAfter]
      split
      · split
        · exact ih _ _ _
        · rfl
      · exact ih _ _ _

/-- The operator behind the last statement decides nothing about those before. -/
theorem performAfter_concat (next : Option Operator) (last : Status) (gate : Option Operator)
    (effects : Effects) :
    tools.performAfter last gate (first ++ [{ statement with next }]) effects =
      tools.performAfter last gate (first ++ [statement]) effects := by
  rw [performAfter_append, performAfter_append]
  rfl

/-- Behind `;` it matters only for a request to exit what came before, and only if the
first statement makes it. -/
theorem performAfter_sequence (status : Status) (command : Statement) (others : List Statement)
    (effects : Effects) :
    tools.performAfter status (some .sequence) (command :: others) effects =
      (if (tools.act command effects).1 = .exit then .exitRequested status
        else (tools.performAfter 0 none (command :: others) effects).1,
        (tools.performAfter 0 none (command :: others) effects).2) := by
  have opened : opens (some .sequence) status = true := rfl
  have opened' : opens none 0 = true := rfl
  rw [performAfter, performAfter, if_pos opened, if_pos opened']
  cases tools.act command effects with
  | mk control after => cases control <;> rfl

theorem performAfter_defect? (last : Status) (gate : Option Operator)
    (statements : List Statement) (journal : Journal) :
    (tools.performAfter last gate statements journal.effects).1.defect? = none := by
  rw [← executeAfter_eq_performAfter]
  exact tools.executeAfter_defect? last gate statements journal

theorem runLine_eq_performAfter {line : Text} {statements : List Statement}
    (accepted : Statement.ofTokens (Token.scan line) = .ok statements) (journal : Journal) :
    ((tools.runLine line journal).1, (tools.runLine line journal).2.effects) =
      tools.performAfter 0 none statements journal.effects := by
  rw [tools.runLine_of_accepted accepted, ← executeAfter_eq_performAfter]
  rfl

end Tools

open Statement (ofTokens)

/-- Two lines joined by `;` do what they do one after the other, unless the first ends
in a request to exit. A request in the first statement of the second line is made with
the status of the first line. -/
theorem joined_lines_run_in_turn (tools : Tools) {line line' : Text} {first : List Statement}
    {command : Statement} {others : List Statement}
    (accepted : ofTokens (Token.scan line) = .ok first) (something : first ≠ [])
    (blank : ∀ c ∈ Cursor.trailing (Token.scan line) line, Text.isBlank c = true)
    (escaping : ¬ EndsInBackslash line)
    (accepted' : ofTokens (Token.scan line') = .ok (command :: others)) (journal : Journal) :
    let one := tools.runLine line journal
    let two := tools.runLine line' one.2
    let both := tools.runLine (line ++ ';' :: line') journal
    (one.1.isExit = true → both.1 = one.1 ∧ both.2.effects = one.2.effects) ∧
    (one.1.isExit = false → both.2.effects = two.2.effects ∧
      both.1 = if (tools.runStatement command one.2).1 = .exit then .exitRequested one.1.exitCode
        else two.1) := by
  intro one two both
  obtain ⟨front, last, following, rfl, same, joint⟩ := Statement.exists_joint accepted something
    blank escaping accepted' (List.cons_ne_nil command others) .sequence
  have run : (one.1, one.2.effects) = _ := tools.runLine_eq_performAfter accepted journal
  have run' : (two.1, two.2.effects) = _ := tools.runLine_eq_performAfter accepted' one.2
  have run_both : (both.1, both.2.effects) = _ := tools.runLine_eq_performAfter joint journal
  have sound : one.1.defect? = none := by
    have sound := tools.performAfter_defect? 0 none (front ++ [last]) journal
    rwa [← run] at sound
  have acted := tools.runStatement_eq_act command one.2
  rw [List.append_cons, Tools.performAfter_append, Tools.performAfter_concat, ← run] at run_both
  cases ended : one.1 with
  | rejected defect => simp [ended, Outcome.defect?] at sound
  | exitRequested status =>
      rw [ended] at run_both
      obtain ⟨outcome, effects⟩ := Prod.mk.inj run_both
      exact ⟨fun _ => ⟨outcome, effects⟩, by simp [Outcome.isExit]⟩
  | completed status =>
      have gate : Tools.gateBehind none (front ++ [{ last with next := some .sequence }]) =
          some .sequence := by
        simp [Tools.gateBehind]
      rw [ended] at run_both
      simp only [gate] at run_both
      rw [Tools.performAfter_congr same, Tools.performAfter_sequence, ← run', ← acted] at run_both
      obtain ⟨outcome, effects⟩ := Prod.mk.inj run_both
      exact ⟨by simp [Outcome.isExit], fun _ => ⟨effects, outcome⟩⟩

/-- A built-in that only tells how it was called, with a fixed end. -/
def Builtin.echo (manual : Manual) (control : Control) : Builtin where
  toManual := manual
  run occasion streams :=
    let text := manual.name ++ ['('] ++ Text.join [','] occasion.arguments ++ ")\n".toList
    (control, { streams with out := (streams.out.write text).1 })

theorem exit_in_a_joined_line_keeps_the_status :
    (Tools.runLine ⟨.ofLists [] [], Registry.empty.register (.echo ⟨['e'], [], []⟩ .exit),
      .missing [] []⟩ ['x', ';', 'e'] (.start .unbounded)).1 = .exitRequested 127 := by
  have scanned : Token.scan ['x'] = [⟨.word, ['x'], ['x'], none, true, ⟨0, 1⟩⟩] := by
    decide +kernel
  have scanned' : Token.scan ['e'] = [⟨.word, ['e'], ['e'], none, true, ⟨0, 1⟩⟩] := by
    decide +kernel
  have accepted : ofTokens (Token.scan ['x']) =
      .ok [⟨⟨.word, ['x'], ['x'], none, true, ⟨0, 1⟩⟩, [], none⟩] := by
    rw [scanned]
    rfl
  have accepted' : ofTokens (Token.scan ['e']) =
      .ok [⟨⟨.word, ['e'], ['e'], none, true, ⟨0, 1⟩⟩, [], none⟩] := by
    rw [scanned']
    rfl
  have blank : ∀ c ∈ Cursor.trailing (Token.scan ['x']) ['x'], Text.isBlank c = true := by
    have nothing : Cursor.trailing (Token.scan ['x']) ['x'] = [] := by decide +kernel
    simp [nothing]
  have escaping : ¬ EndsInBackslash ['x'] := by
    rintro ⟨last, ended, pieces, typed⟩
    rw [scanned] at ended
    obtain rfl := Option.some.inj ended
    simpa using congrArg List.getLast? typed
  have joined := joined_lines_run_in_turn ⟨.ofLists [] [], Registry.empty.register
    (.echo ⟨['e'], [], []⟩ .exit), .missing [] []⟩ accepted (by simp) blank escaping accepted'
    (.start .unbounded)
  have goes_on : (Tools.runLine ⟨.ofLists [] [], Registry.empty.register
      (.echo ⟨['e'], [], []⟩ .exit), .missing [] []⟩ ['x'] (.start .unbounded)).1.isExit =
      false := by decide +kernel
  exact (joined.2 goes_on).2.trans (by decide +kernel)

end LineShell
