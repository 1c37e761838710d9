import LineShell.Statement

namespace LineShell

/-! How statements arise from tokens.

A token after a position either is a complete word, which joins the statement, or
an operator behind a statement, which closes it. Every other token is a defect.
-/

namespace Token

variable {token : Token}

theorem kind_of_isWord (word : token.isWord = true) : token.kind = .word := by
  simpa [isWord] using word

theorem isWord_of_isComplete (complete : token.isComplete = true) :
    token.isWord = true := by
  simp only [isComplete, Bool.and_eq_true] at complete
  exact complete.1

theorem isOperator_of_kind {operator : Operator} (kind : token.kind = .operator operator) :
    token.isOperator = true := by
  simp [isOperator, operator?, kind]

theorem isWord_eq_false_of_isOperator (operator : token.isOperator = true) :
    token.isWord = false := by
  cases kind : token.kind with
  | operator => simp [isWord, kind]
  | word | brokenOperator => simp [isOperator, operator?, kind] at operator

/-- A token in the form in which statements hold it. -/
def item (token : Token) : Statement.Item :=
  match token.operator? with
  | some operator => .operator operator
  | none => .word token

theorem item_of_isWord (word : token.isWord = true) : token.item = .word token := by
  simp [item, operator?, kind_of_isWord word]

theorem item_of_kind {operator : Operator} (kind : token.kind = .operator operator) :
    token.item = .operator operator := by
  simp [item, operator?, kind]

end Token

/-- What a statement says: the values of its words, and the operator behind
them. -/
structure Sentence where
  name : Text
  arguments : List Text
  next : Option Operator
deriving DecidableEq, Repr

namespace Statement

def sentence (statement : Statement) : Sentence :=
  ⟨statement.name, statement.argumentValues, statement.next⟩

variable {position : Position} {token : Token} {tokens : List Token}
  {statement : Statement} {statements : List Statement}

theorem ofTokensAfter_word (complete : token.isComplete = true) :
    ofTokensAfter position (token :: tokens) =
      ofTokensAfter (position.addWord token) tokens := by
  obtain ⟨word, terminated⟩ : token.kind = .word ∧ token.terminated = true := by
    simpa [Token.isComplete, Token.isWord] using complete
  cases position <;> simp [ofTokensAfter, word, terminated]

theorem ofTokensAfter_operator {operator : Operator}
    (kind : token.kind = .operator operator) :
    ofTokensAfter (.within statement) (token :: tokens) =
      (ofTokensAfter (.afterOperator operator token.span) tokens).map
        ({ statement with next := some operator } :: ·) := by
  simp [ofTokensAfter, kind]

theorem ofTokensAfter_words {words : List Token}
    (complete : ∀ word ∈ words, word.isComplete = true) :
    ofTokensAfter (.within statement) (words ++ tokens) =
      ofTokensAfter
        (.within { statement with arguments := statement.arguments ++ words }) tokens := by
  induction words generalizing statement with
  | nil => simp
  | cons word words ih =>
      rw [List.cons_append, ofTokensAfter_word (complete word (by simp)),
        Position.addWord, ih fun other member => complete other (.tail _ member)]
      simp

/-- The only ways in which a token can be accepted. -/
theorem ofTokensAfter_cons_eq_ok
    (accepted : ofTokensAfter position (token :: tokens) = .ok statements) :
    (token.isComplete = true ∧
      ofTokensAfter (position.addWord token) tokens = .ok statements) ∨
    ∃ operator statement following,
      token.kind = .operator operator ∧ position = .within statement ∧
      ofTokensAfter (.afterOperator operator token.span) tokens = .ok following ∧
      statements = { statement with next := some operator } :: following := by
  cases kind : token.kind with
  | word =>
      by_cases terminated : token.terminated = true
      · have complete : token.isComplete = true := by
          simp [Token.isComplete, Token.isWord, kind, terminated]
        rw [ofTokensAfter_word complete] at accepted
        exact .inl ⟨complete, accepted⟩
      · cases position <;> simp [ofTokensAfter, kind, terminated] at accepted
  | brokenOperator => cases position <;> simp [ofTokensAfter, kind] at accepted
  | operator operator =>
      cases position with
      | start | afterOperator => simp [ofTokensAfter, kind] at accepted
      | within statement =>
          rw [ofTokensAfter_operator kind] at accepted
          cases after : ofTokensAfter (.afterOperator operator token.span) tokens with
          | error defect => simp [after, Except.map] at accepted
          | ok following =>
              simp only [after, Except.map, Except.ok.injEq] at accepted
              exact .inr ⟨operator, statement, following, rfl, rfl, after, accepted.symm⟩

/-- Outside a statement only a complete word can be accepted. -/
theorem ofTokensAfter_outside (outside : ∀ statement, position ≠ .within statement)
    (accepted : ofTokensAfter position (token :: tokens) = .ok statements) :
    token.isComplete = true ∧
      ofTokensAfter (position.addWord token) tokens = .ok statements := by
  rcases ofTokensAfter_cons_eq_ok accepted with word | ⟨_, statement, _, _, within, _⟩
  · exact word
  · exact absurd within (outside statement)

/-- Behind something that has begun there is at least one statement. -/
theorem ne_nil_of_accepted (begun : position ≠ .start)
    (accepted : ofTokensAfter position tokens = .ok statements) : statements ≠ [] := by
  induction tokens generalizing position with
  | nil =>
      cases position with
      | start => exact absurd rfl begun
      | afterOperator => simp [ofTokensAfter] at accepted
      | within statement =>
          obtain rfl : [statement] = statements := by simpa [ofTokensAfter] using accepted
          simp
  | cons token tokens ih =>
      rcases ofTokensAfter_cons_eq_ok accepted with ⟨_, onward⟩ | ⟨_, _, _, _, _, _, rfl⟩
      · exact ih (by cases position <;> simp [Position.addWord]) onward
      · simp

/-- Nothing else is left in an accepted line. -/
theorem complete_or_operator
    (accepted : ofTokensAfter position tokens = .ok statements) :
    ∀ token ∈ tokens, token.isComplete = true ∨ token.isOperator = true := by
  induction tokens generalizing position statements with
  | nil => simp
  | cons token tokens ih =>
      rcases ofTokensAfter_cons_eq_ok accepted with
        ⟨complete, onward⟩ | ⟨operator, _, _, kind, _, onward, _⟩
      · exact List.forall_mem_cons.mpr ⟨.inl complete, ih onward⟩
      · exact List.forall_mem_cons.mpr ⟨.inr (Token.isOperator_of_kind kind), ih onward⟩

/-- What has been read of the statement that has begun. -/
def Position.items : Position → List Item
  | .within statement => statement.items
  | _ => []

/-- The statement that has begun has no operator yet. -/
def Position.Unclosed (position : Position) : Prop :=
  ∀ statement, position = .within statement → statement.next = none

theorem Position.Unclosed.addWord (unclosed : position.Unclosed) (word : Token) :
    (position.addWord word).Unclosed := by
  intro statement within
  cases position with
  | start | afterOperator =>
      cases within
      rfl
  | within begun =>
      cases within
      exact unclosed begun rfl

theorem Position.Unclosed.items_addWord (unclosed : position.Unclosed) (word : Token) :
    (position.addWord word).items = position.items ++ [.word word] := by
  cases position with
  | start | afterOperator => rfl
  | within begun =>
      simp [Position.addWord, Position.items, Statement.items, words, unclosed begun rfl]

/-- Statements hold what was read, in order. -/
theorem flatten_of_accepted (unclosed : position.Unclosed)
    (accepted : ofTokensAfter position tokens = .ok statements) :
    flatten statements = position.items ++ tokens.map Token.item := by
  induction tokens generalizing position statements with
  | nil =>
      cases position with
      | start =>
          obtain rfl : [] = statements := by simpa [ofTokensAfter] using accepted
          rfl
      | afterOperator => simp [ofTokensAfter] at accepted
      | within statement =>
          obtain rfl : [statement] = statements := by simpa [ofTokensAfter] using accepted
          simp [flatten, Position.items]
  | cons token tokens ih =>
      rcases ofTokensAfter_cons_eq_ok accepted with
        ⟨complete, onward⟩ | ⟨operator, statement, following, kind, rfl, onward, rfl⟩
      · have word := Token.isWord_of_isComplete complete
        rw [ih (unclosed.addWord token) onward, unclosed.items_addWord,
          List.map_cons, Token.item_of_isWord word, List.append_assoc]
        rfl
      · have outside : (Position.afterOperator operator token.span).Unclosed := by
          simp [Position.Unclosed]
        rw [flatten, List.flatMap_cons, ← flatten, ih outside onward, List.map_cons,
          Token.item_of_kind kind]
        simp [Position.items, items, words, unclosed statement rfl]

end Statement

end LineShell
