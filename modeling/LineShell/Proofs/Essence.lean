import LineShell.Execution
import LineShell.Proofs.Parsing

namespace LineShell

/-! Lines that differ only in how they are typed.

The essence of a token is what its statement takes from it when it is rendered and
when it runs: not the place in the line, and of the quotes no more than the rendering
shows. Tokens of the same essence make statements of the same essence, and those
render and run alike.
-/

structure Token.Essence where
  kind : TokenKind
  content : Text
  terminated : Bool
  rendered : Text

def Token.essence (token : Token) : Token.Essence :=
  ⟨token.kind, token.content, token.terminated, Statement.renderWord token⟩

namespace Statement

structure Essence where
  command : Token.Essence
  arguments : List Token.Essence
  next : Option Operator

def essence (statement : Statement) : Essence :=
  ⟨statement.command.essence, statement.arguments.map Token.essence, statement.next⟩

def Essence.sentence (essence : Essence) : Sentence :=
  ⟨essence.command.content, essence.arguments.map Token.Essence.content, essence.next⟩

def Essence.render (essence : Essence) : Text :=
  Text.join [' ']
      ((essence.command :: essence.arguments).map Token.Essence.rendered) ++
    match essence.next with
    | none => []
    | some operator => ' ' :: operator.text

theorem sentence_essence (statement : Statement) :
    statement.essence.sentence = statement.sentence := by
  simp [essence, Essence.sentence, sentence, Token.essence, name, argumentValues]

theorem render_essence (statement : Statement) :
    statement.essence.render = statement.render := by
  obtain ⟨command, arguments, next⟩ := statement
  cases next <;>
    simp [essence, Essence.render, render, words, Token.essence, Function.comp_def]

variable {statements statements' : List Statement}

theorem map_sentence_congr (same : statements.map essence = statements'.map essence) :
    statements.map sentence = statements'.map sentence := by
  have sentences := congrArg (List.map Essence.sentence) same
  simpa only [List.map_map, Function.comp_def, sentence_essence] using sentences

theorem map_render_congr (same : statements.map essence = statements'.map essence) :
    statements.map render = statements'.map render := by
  have renderings := congrArg (List.map Essence.render) same
  simpa only [List.map_map, Function.comp_def, render_essence] using renderings

/-- The positions differ only in how what was read before was typed. -/
inductive Position.Alike : Position → Position → Prop
  | start : Alike .start .start
  | afterOperator (operator operator' : Operator) (span span' : Span) :
      Alike (.afterOperator operator span) (.afterOperator operator' span')
  | within {statement statement' : Statement}
      (same : statement.essence = statement'.essence) :
      Alike (.within statement) (.within statement')

variable {position position' : Position}

theorem Position.Alike.addWord (alike : position.Alike position') {token token' : Token}
    (same : token.essence = token'.essence) :
    (position.addWord token).Alike (position'.addWord token') := by
  cases alike with
  | start => exact .within (by simp [essence, same])
  | afterOperator => exact .within (by simp [essence, same])
  | within alike =>
      refine .within ?_
      simp only [essence, Essence.mk.injEq] at alike ⊢
      simp [alike, same]

/-- Tokens of the same essence are accepted together. -/
theorem ofTokensAfter_congr {tokens tokens' : List Token} (alike : position.Alike position')
    (same : tokens.map Token.essence = tokens'.map Token.essence)
    (accepted : ofTokensAfter position tokens = .ok statements) :
    ∃ statements', ofTokensAfter position' tokens' = .ok statements' ∧
      statements'.map essence = statements.map essence := by
  induction tokens generalizing tokens' position position' statements with
  | nil =>
      obtain rfl : tokens' = [] := by simpa using same.symm
      cases alike with
      | start => exact ⟨_, rfl, by simpa [ofTokensAfter] using accepted.symm⟩
      | afterOperator => simp [ofTokensAfter] at accepted
      | within alike =>
          obtain rfl : [_] = statements := by simpa [ofTokensAfter] using accepted
          exact ⟨_, rfl, by simpa using alike.symm⟩
  | cons token tokens ih =>
      cases tokens' with
      | nil => simp at same
      | cons token' tokens' =>
          obtain ⟨here, same⟩ := List.cons.inj same
          have kind : token.kind = token'.kind := congrArg Token.Essence.kind here
          have terminated : token.terminated = token'.terminated :=
            congrArg Token.Essence.terminated here
          rcases ofTokensAfter_cons_eq_ok accepted with
            ⟨complete, onward⟩ | ⟨operator, statement, following, operated, rfl, onward, rfl⟩
          · have complete : token'.isComplete = true := by
              simpa [Token.isComplete, Token.isWord, kind, terminated] using complete
            rw [ofTokensAfter_word complete]
            exact ih (alike.addWord here) same onward
          · cases alike with
            | within alike =>
                obtain ⟨following', onward', same⟩ :=
                  ih (.afterOperator operator operator token.span token'.span) same onward
                rw [ofTokensAfter_operator (kind ▸ operated), onward']
                refine ⟨_, rfl, ?_⟩
                simp only [essence, Essence.mk.injEq] at alike
                simp [essence, alike, same]

end Statement

namespace Tools

open Statement (essence sentence)

variable {statement statement' : Statement} {statements statements' : List Statement}

theorem runStatement_congr (tools : Tools) (same : statement.sentence = statement'.sentence)
    (journal : Journal) :
    tools.runStatement statement journal = tools.runStatement statement' journal := by
  have name : statement.name = statement'.name := congrArg Sentence.name same
  have arguments : statement.argumentValues = statement'.argumentValues :=
    congrArg Sentence.arguments same
  rw [runStatement, runStatement, name, arguments]

/-- Statements of the same essence run alike. -/
theorem executeAfter_congr (tools : Tools)
    (same : statements.map essence = statements'.map essence)
    (last : Status) (gate : Option Operator) (journal : Journal) :
    tools.executeAfter last gate statements journal =
      tools.executeAfter last gate statements' journal := by
  induction statements generalizing statements' last gate journal with
  | nil =>
      obtain rfl : statements' = [] := by simpa using same.symm
      rfl
  | cons statement statements ih =>
      cases statements' with
      | nil => simp at same
      | cons statement' statements' =>
          obtain ⟨here, same⟩ := List.cons.inj same
          have next : statement.next = statement'.next := congrArg Statement.Essence.next here
          have render : statement.render = statement'.render := by
            rw [← Statement.render_essence, here, Statement.render_essence]
          have sentence : statement.sentence = statement'.sentence := by
            rw [← Statement.sentence_essence, here, Statement.sentence_essence]
          rw [executeAfter, executeAfter, render, next, runStatement_congr tools sentence,
            ih same]
          split
          · split
            · exact ih same _ _ _
            · rfl
          · rfl

end Tools

end LineShell
