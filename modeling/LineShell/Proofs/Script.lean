import LineShell.Proofs.Parsing
import LineShell.Proofs.Spelling

namespace LineShell

/-! Lines as they can be written.

A script is a line taken apart: phrases of spelled words, the operators and the
blanks between them, and perhaps a comment at the end. Lines that are written as
a script are accepted with the meaning of the script, and no others are, apart
from lines that end in a backslash which escapes nothing.
-/

open Token (EndsWord Word)

/-- A statement as it is typed, without the operator behind it. -/
structure Phrase where
  command : Spelling
  arguments : List (Gap × Spelling)

namespace Phrase

def argumentsText (arguments : List (Gap × Spelling)) : Text :=
  arguments.flatMap fun (gap, word) => gap.text ++ word.text

def text (phrase : Phrase) : Text :=
  phrase.command.text ++ argumentsText phrase.arguments

def sentence (phrase : Phrase) (next : Option Operator) : Sentence :=
  ⟨phrase.command.value, phrase.arguments.map (·.2.value), next⟩

def add (phrase : Phrase) (gap : Gap) (word : Spelling) : Phrase :=
  { phrase with arguments := phrase.arguments ++ [(gap, word)] }

theorem text_add (phrase : Phrase) (gap : Gap) (word : Spelling) :
    (phrase.add gap word).text = phrase.text ++ gap.text ++ word.text := by
  simp [text, add, argumentsText]

end Phrase

/-- Phrases joined by operators. -/
inductive Chain where
  | last (phrase : Phrase)
  | join (phrase : Phrase) (before : Blanks) (operator : Operator) (after : Blanks)
      (following : Chain)

namespace Chain

def text : Chain → Text
  | .last phrase => phrase.text
  | .join phrase before operator after following =>
      phrase.text ++ before.text ++ operator.text ++ after.text ++ following.text

def sentences : Chain → List Sentence
  | .last phrase => [phrase.sentence none]
  | .join phrase _ operator _ following =>
      phrase.sentence (some operator) :: following.sentences

end Chain

/-- What may stand behind the last word of a line. -/
inductive Ending where
  | blank (blanks : Blanks)
  | comment (gap : Gap) (remark : Text)

def Ending.text : Ending → Text
  | .blank blanks => blanks.text
  | .comment gap remark => gap.text ++ '#' :: remark

structure Script where
  leading : Blanks
  chain : Chain
  ending : Ending

namespace Script

def text (script : Script) : Text :=
  script.leading.text ++ script.chain.text ++ script.ending.text

def sentences (script : Script) : List Sentence := script.chain.sentences

end Script

variable {start : Nat} {rest : Text}

namespace Ending

theorem endsWord (ending : Ending) : EndsWord ending.text := by
  cases ending with
  | blank blanks => simpa [text] using EndsWord.blanks blanks .nil
  | comment gap remark => exact .gap gap _

theorem scanFrom_text (ending : Ending) : Token.scanFrom start ending.text = [] := by
  cases ending with
  | blank blanks => exact Token.scanFrom_nothing blanks
  | comment gap remark => rw [text, Token.scanFrom_blanks, Token.scanFrom_comment]

end Ending

namespace Phrase

theorem endsWord_arguments (arguments : List (Gap × Spelling)) (ends : EndsWord rest) :
    EndsWord (argumentsText arguments ++ rest) := by
  cases arguments with
  | nil => exact ends
  | cons argument arguments =>
      have shape : argumentsText (argument :: arguments) ++ rest =
          argument.1.text ++ (argument.2.text ++ (argumentsText arguments ++ rest)) := by
        simp [argumentsText]
      rw [shape]
      exact .gap argument.1 _

theorem scanFrom_arguments (arguments : List (Gap × Spelling)) (ends : EndsWord rest)
    (start : Nat) :
    ∃ words stop,
      Token.scanFrom start (argumentsText arguments ++ rest) =
        words ++ Token.scanFrom stop rest ∧
      words.map Token.content = arguments.map (·.2.value) ∧
      ∀ word ∈ words, word.isComplete = true := by
  induction arguments generalizing start with
  | nil => exact ⟨[], start, rfl, rfl, by simp⟩
  | cons argument arguments ih =>
      obtain ⟨gap, word⟩ := argument
      have shape : argumentsText ((gap, word) :: arguments) ++ rest =
          gap.text ++ (word.text ++ (argumentsText arguments ++ rest)) := by
        simp [argumentsText]
      obtain ⟨words, stop, scanned, values, complete⟩ :=
        ih (start + gap.text.byteSize + word.text.byteSize)
      refine ⟨word.token (start + gap.text.byteSize) :: words, stop, ?_, ?_, ?_⟩
      · rw [shape, Token.scanFrom_blanks,
          Token.scanFrom_spelling word (endsWord_arguments arguments ends), scanned,
          List.cons_append]
      · rw [List.map_cons, values]
        rfl
      · intro other member
        rcases List.mem_cons.mp member with rfl | member
        · rfl
        · exact complete other member

open Statement

theorem sentence_of_next {phrase : Phrase} {statement : Statement}
    (meaning : statement.sentence = phrase.sentence none) (operator : Operator) :
    { statement with next := some operator }.sentence = phrase.sentence (some operator) := by
  have name : statement.name = phrase.command.value := congrArg Sentence.name meaning
  have arguments : statement.argumentValues = phrase.arguments.map (·.2.value) :=
    congrArg Sentence.arguments meaning
  change Sentence.mk statement.name statement.argumentValues _ = _
  rw [name, arguments]
  rfl

theorem sentence_of_argument {phrase : Phrase} {statement : Statement} {gap : Gap}
    {word : Token} {spelling : Spelling}
    (meaning : statement.sentence = phrase.sentence none)
    (value : word.content = spelling.value) :
    { statement with arguments := statement.arguments ++ [word] }.sentence =
      (phrase.add gap spelling).sentence none := by
  have name : statement.name = phrase.command.value := congrArg Sentence.name meaning
  have arguments : statement.argumentValues = phrase.arguments.map (·.2.value) :=
    congrArg Sentence.arguments meaning
  have next : statement.next = none := congrArg Sentence.next meaning
  have longer : (statement.arguments ++ [word]).map Token.content =
      (phrase.arguments ++ [(gap, spelling)]).map (·.2.value) := by
    rw [List.map_append, List.map_append, ← arguments, List.map_singleton, value]
    rfl
  change Sentence.mk statement.name _ statement.next = _
  rw [name, next, argumentValues, longer]
  rfl

/-- A phrase read where a command is due begins a statement that says the
same. -/
theorem ofTokensAfter_text (phrase : Phrase) (ends : EndsWord rest) (start : Nat)
    {position : Position}
    (fresh : ∀ word, position.addWord word = .within ⟨word, [], none⟩) :
    ∃ statement stop,
      ofTokensAfter position (Token.scanFrom start (phrase.text ++ rest)) =
        ofTokensAfter (.within statement) (Token.scanFrom stop rest) ∧
      statement.sentence = phrase.sentence none := by
  obtain ⟨words, stop, scanned, values, complete⟩ :=
    scanFrom_arguments phrase.arguments ends (start + phrase.command.text.byteSize)
  refine ⟨⟨phrase.command.token start, words, none⟩, stop, ?_, ?_⟩
  · rw [text, List.append_assoc,
      Token.scanFrom_spelling phrase.command (endsWord_arguments phrase.arguments ends),
      ofTokensAfter_word rfl, fresh, scanned, ofTokensAfter_words complete]
    rfl
  · simp only [Statement.sentence, name, argumentValues, values]
    rfl

end Phrase

open Statement

theorem Chain.accepted (chain : Chain) (start : Nat) (ends : EndsWord rest)
    (quiet : ∀ stop, Token.scanFrom stop rest = []) {position : Position}
    (fresh : ∀ word, position.addWord word = .within ⟨word, [], none⟩) :
    ∃ statements,
      ofTokensAfter position (Token.scanFrom start (chain.text ++ rest)) = .ok statements ∧
      statements.map sentence = chain.sentences := by
  induction chain generalizing start position with
  | last phrase =>
      obtain ⟨statement, stop, parsed, meaning⟩ := phrase.ofTokensAfter_text ends start fresh
      exact ⟨[statement], by rw [Chain.text, parsed, quiet]; rfl, by simp [meaning, sentences]⟩
  | join phrase before operator after following ih =>
      have shape : (Chain.join phrase before operator after following).text ++ rest =
          phrase.text ++ (before.text ++ (operator.text ++
            (after.text ++ (following.text ++ rest)))) := by
        simp [Chain.text]
      have behind : EndsWord (before.text ++ (operator.text ++
          (after.text ++ (following.text ++ rest)))) :=
        EndsWord.blanks before (.operator operator _)
      obtain ⟨statement, stop, parsed, meaning⟩ := phrase.ofTokensAfter_text behind start fresh
      let place := stop + before.text.byteSize
      obtain ⟨statements, accepted, meanings⟩ :=
        ih (place + operator.text.byteSize + after.text.byteSize)
          (show ∀ word, (Position.afterOperator operator
              ⟨place, place + operator.text.byteSize⟩).addWord word =
            .within ⟨word, [], none⟩ from fun _ => rfl)
      refine ⟨{ statement with next := some operator } :: statements, ?_, ?_⟩
      · rw [shape, parsed, Token.scanFrom_blanks, Token.scanFrom_operator,
          Token.scanFrom_blanks, ofTokensAfter_operator rfl]
        exact congrArg (Except.map _) accepted
      · rw [List.map_cons, Phrase.sentence_of_next meaning, meanings]
        rfl

/-- The line is the chain with an ending, or it ends in a backslash that stands
for itself, where the chain escapes it. -/
def Chain.Writes (chain : Chain) (line : Text) : Prop :=
  (∃ ending : Ending, chain.text ++ ending.text = line) ∨
    ∃ front, line = front ++ ['\\'] ∧ chain.text = front ++ ['\\', '\\']

theorem Chain.Writes.join {phrase : Phrase} {before : Blanks} {operator : Operator}
    {after : Blanks} {following : Chain} {line : Text} (writes : following.Writes line) :
    (Chain.join phrase before operator after following).Writes
      (phrase.text ++ before.text ++ operator.text ++ after.text ++ line) := by
  rcases writes with ⟨ending, rfl⟩ | ⟨front, rfl, written⟩
  · exact .inl ⟨ending, by simp [Chain.text]⟩
  · refine .inr ⟨phrase.text ++ before.text ++ operator.text ++ after.text ++ front, ?_, ?_⟩
    · simp
    · simp [Chain.text, written]

/-- Where a command is due, an accepted line goes on with a word. -/
theorem exists_command {position : Position} {text : Text} {statements : List Statement}
    (fresh : ∀ word, position.addWord word = .within ⟨word, [], none⟩)
    (outside : ∀ statement, position ≠ .within statement)
    (due : ofTokensAfter position [] ≠ .ok statements)
    (accepted : ofTokensAfter position (Token.scanFrom start text) = .ok statements) :
    ∃ (blanks : Blanks) (c : Char) (rest : Text) (stop : Nat),
      text = blanks.text ++ c :: rest ∧ Token.endsWord c = false ∧ c ≠ '#' ∧
      (Word.read none (c :: rest)).stillOpen = none ∧
      ofTokensAfter (.within ⟨(Word.read none (c :: rest)).toToken stop, [], none⟩)
        (Token.scanFrom (stop + (Word.read none (c :: rest)).raw.byteSize)
          (Word.read none (c :: rest)).rest) = .ok statements := by
  cases Token.front text with
  | nothing blanks =>
      rw [Token.scanFrom_nothing] at accepted
      exact absurd accepted due
  | comment blanks rest =>
      rw [Token.scanFrom_blanks, Token.scanFrom_comment] at accepted
      exact absurd accepted due
  | operator blanks operator rest =>
      rw [Token.scanFrom_blanks, Token.scanFrom_operator] at accepted
      simpa using (ofTokensAfter_outside outside accepted).1
  | broken blanks c rest half lone =>
      rw [Token.scanFrom_blanks, Token.scanFrom_broken half lone] at accepted
      simpa using (ofTokensAfter_outside outside accepted).1
  | word blanks c rest starts uncommented =>
      rw [Token.scanFrom_blanks, Token.scanFrom_word starts uncommented] at accepted
      obtain ⟨complete, onward⟩ := ofTokensAfter_outside outside accepted
      rw [fresh] at onward
      exact ⟨blanks, c, rest, _, rfl, starts, uncommented, by simpa using complete, onward⟩

/-- A word that belongs to a phrase, followed by what makes a chain. -/
theorem exists_chain_of_word {c : Char} {text : Text} {statement : Statement}
    {statements : List Statement} (lead : Text) (phrase : Spelling → Phrase)
    (starts : Token.endsWord c = false) (uncommented : c ≠ '#')
    (closed : (Word.read none (c :: text)).stillOpen = none)
    (written : ∀ spelling, (phrase spelling).text = lead ++ spelling.text)
    (meaning : ∀ spelling, spelling.value = (Word.read none (c :: text)).content →
      statement.sentence = (phrase spelling).sentence none)
    (accepted : ofTokensAfter (.within statement)
      (Token.scanFrom start (Word.read none (c :: text)).rest) = .ok statements)
    (continues : ∀ phrase : Phrase, EndsWord (Word.read none (c :: text)).rest →
      statement.sentence = phrase.sentence none →
      ∃ chain : Chain, statements.map sentence = chain.sentences ∧
        chain.Writes (phrase.text ++ (Word.read none (c :: text)).rest)) :
    ∃ chain : Chain, statements.map sentence = chain.sentences ∧
      chain.Writes (lead ++ c :: text) := by
  obtain ⟨spelling, value, ⟨typed, -, ends⟩ | ⟨pieces, line, typed, nothing⟩⟩ :=
    Word.spelled_or_ends_in_backslash starts uncommented closed
  · obtain ⟨chain, meanings, writes⟩ := continues (phrase spelling) ends (meaning spelling value)
    refine ⟨chain, meanings, ?_⟩
    rwa [written, List.append_assoc, typed] at writes
  · rw [nothing, Token.scanFrom_nil] at accepted
    obtain rfl : [statement] = statements := Except.ok.inj accepted
    refine ⟨.last (phrase spelling), by simp [meaning spelling value, Chain.sentences],
      .inr ⟨lead ++ pieces.flatMap Spelling.Piece.text, ?_, ?_⟩⟩
    · rw [line, List.append_assoc]
    · rw [Chain.text, written, typed, List.append_assoc]

theorem exists_chain (text : Text) {statement : Statement} {statements : List Statement}
    {phrase : Phrase} (ends : EndsWord text)
    (meaning : statement.sentence = phrase.sentence none)
    (accepted : ofTokensAfter (.within statement) (Token.scanFrom start text) = .ok statements) :
    ∃ chain : Chain, statements.map sentence = chain.sentences ∧
      chain.Writes (phrase.text ++ text) := by
  induction length : text.length using Nat.strongRecOn generalizing
    text start statement statements phrase with
  | _ length ih =>
      subst length
      cases Token.front text with
      | nothing blanks =>
          rw [Token.scanFrom_nothing] at accepted
          obtain rfl : [statement] = statements := Except.ok.inj accepted
          exact ⟨.last phrase, by simp [meaning, Chain.sentences], .inl ⟨.blank blanks, rfl⟩⟩
      | comment blanks rest =>
          rw [Token.scanFrom_blanks, Token.scanFrom_comment] at accepted
          obtain rfl : [statement] = statements := Except.ok.inj accepted
          have apart : blanks.text ≠ [] := fun empty =>
            absurd (ends '#' (by simp [empty])) (by decide)
          exact ⟨.last phrase, by simp [meaning, Chain.sentences],
            .inl ⟨.comment ⟨blanks, apart⟩ rest, rfl⟩⟩
      | operator blanks operator rest =>
          rw [Token.scanFrom_blanks, Token.scanFrom_operator] at accepted
          rcases ofTokensAfter_cons_eq_ok accepted with
            ⟨complete, _⟩ | ⟨_, _, following, kind, within, onward, rfl⟩
          · simp at complete
          cases kind
          cases within
          obtain ⟨after, c, more, stop, rfl, starts, uncommented, closed, onward⟩ :=
            exists_command (fun _ => rfl) (by simp) (by simp [ofTokensAfter]) onward
          have shorter : _ < (c :: more).length := Word.rest_length_lt starts
          obtain ⟨chain, meanings, writes⟩ :=
            exists_chain_of_word [] (fun spelling => ⟨spelling, []⟩) starts uncommented closed
              (fun spelling => by simp [Phrase.text, Phrase.argumentsText])
              (fun spelling value => by
                simp [Statement.sentence, Phrase.sentence, name, argumentValues,
                  Word.toToken, value])
              onward fun phrase ends meaning =>
                ih _ (by simp only [List.length_append]; omega) _ ends meaning onward rfl
          refine ⟨.join phrase blanks operator after chain, ?_, ?_⟩
          · rw [List.map_cons, Phrase.sentence_of_next meaning, meanings]
            rfl
          · simpa using Chain.Writes.join writes
      | broken blanks c rest half lone =>
          rw [Token.scanFrom_blanks, Token.scanFrom_broken half lone] at accepted
          rcases ofTokensAfter_cons_eq_ok accepted with
            ⟨complete, _⟩ | ⟨_, _, _, kind, _, _, _⟩
          · simp at complete
          · cases kind
      | word blanks c rest starts uncommented =>
          have apart : blanks.text ≠ [] := fun empty => by
            have ended := ends c (by simp [empty])
            simp [starts] at ended
          rw [Token.scanFrom_blanks, Token.scanFrom_word starts uncommented] at accepted
          rcases ofTokensAfter_cons_eq_ok accepted with
            ⟨complete, onward⟩ | ⟨_, _, _, kind, _, _, _⟩
          · have shorter : _ < (c :: rest).length := Word.rest_length_lt starts
            have closed : (Word.read none (c :: rest)).stillOpen = none := by
              simpa using complete
            rw [← List.append_assoc]
            exact exists_chain_of_word (phrase.text ++ blanks.text)
              (phrase.add ⟨blanks, apart⟩) starts uncommented closed
              (phrase.text_add ⟨blanks, apart⟩)
              (fun spelling value => Phrase.sentence_of_argument meaning value.symm) onward
              fun phrase ends meaning =>
                ih _ (by simp only [List.length_append]; omega) _ ends meaning onward rfl
          · cases kind

/-- A line that is written as a script is accepted, with the meaning of the
script. An accepted line that says something is written as a script, unless it
ends in a backslash that stands for itself; its script escapes that backslash. -/
theorem accepted_lines_are_scripts :
    (∀ script : Script, ∃ statements,
      ofTokens (Token.scan script.text) = .ok statements ∧
      statements.map sentence = script.sentences) ∧
    ∀ line statements, ofTokens (Token.scan line) = .ok statements → statements ≠ [] →
      ∃ script : Script, statements.map sentence = script.sentences ∧
        (script.text = line ∨
          ∃ front, line = front ++ ['\\'] ∧ script.text = front ++ ['\\', '\\']) := by
  constructor
  · intro script
    have accepted := script.chain.accepted (0 + script.leading.text.byteSize)
      script.ending.endsWord (fun stop => script.ending.scanFrom_text)
      (show ∀ word, Position.start.addWord word = .within ⟨word, [], none⟩ from fun _ => rfl)
    rwa [← Token.scanFrom_blanks, ← List.append_assoc] at accepted
  · intro line statements accepted something
    obtain ⟨leading, c, rest, stop, rfl, starts, uncommented, closed, onward⟩ :=
      exists_command (fun _ => rfl) (by simp)
        (by simpa [ofTokensAfter] using Ne.symm something) accepted
    obtain ⟨chain, meanings, writes⟩ :=
      exists_chain_of_word [] (fun spelling => ⟨spelling, []⟩) starts uncommented closed
        (fun spelling => by simp [Phrase.text, Phrase.argumentsText])
        (fun spelling value => by
          simp [Statement.sentence, Phrase.sentence, name, argumentValues, Word.toToken, value])
        onward fun phrase ends meaning => exists_chain _ ends meaning onward
    rcases writes with ⟨ending, written⟩ | ⟨front, line, written⟩
    · refine ⟨⟨leading, chain, ending⟩, meanings, .inl ?_⟩
      rw [Script.text, List.append_assoc, written]
      rfl
    · refine ⟨⟨leading, chain, .blank ⟨[], by simp⟩⟩, meanings,
        .inr ⟨leading.text ++ front, ?_, ?_⟩⟩
      · rw [List.append_assoc, ← line]
        rfl
      · simp [Script.text, written, Ending.text]

theorem backslash_at_the_end_is_escaped_in_the_script :
    ∃ script : Script, [⟨['x', '\\'], [], none⟩] = script.sentences ∧
      (script.text = ['x', '\\'] ∨
        ∃ front, ['x', '\\'] = front ++ ['\\'] ∧ script.text = front ++ ['\\', '\\']) := by
  have accepted : ofTokens (Token.scan ['x', '\\']) =
      .ok [⟨⟨.word, ['x', '\\'], ['x', '\\'], none, true, ⟨0, 2⟩⟩, [], none⟩] := by
    rw [Token.scan_word (by decide) (by decide) rfl]
    rfl
  exact accepted_lines_are_scripts.2 _ _ accepted (by simp)

end LineShell
