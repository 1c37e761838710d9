import LineShell.Proofs.Flagging

namespace LineShell

/-! Statements laid flat.

Reading tokens and flattening statements undo each other. The statements of a line have
complete words and an operator behind each but the last, and flattening them lists the
tokens of the line. Whatever tokens list statements of that kind, they are read as these
and no others.
-/

namespace Token

variable {token word : Token}

theorem eq_of_item_eq_word (same : token.item = .word word) : token = word := by
  unfold item at same
  split at same
  · contradiction
  · exact Statement.Item.word.inj same

theorem kind_of_item_eq_operator {operator : Operator} (same : token.item = .operator operator) :
    token.kind = .operator operator := by
  cases kind : token.kind with
  | operator found =>
      rw [item_of_kind kind] at same
      rw [Statement.Item.operator.inj same]
  | word | brokenOperator => simp [item, operator?, kind] at same

theorem eq_of_map_item_eq_words {tokens words : List Token}
    (same : tokens.map item = words.map .word) : tokens = words := by
  induction tokens generalizing words with
  | nil => exact (List.map_eq_nil_iff.mp same.symm).symm
  | cons token tokens ih =>
      cases words with
      | nil => simp at same
      | cons word words =>
          obtain ⟨here, same⟩ := List.cons.inj same
          rw [eq_of_item_eq_word here, ih same]

end Token

namespace Statement

/-- The statements could be those of a line: their words are complete, and the last one
alone has no operator behind it. -/
structure Chained (statements : List Statement) : Prop where
  complete : ∀ statement ∈ statements, ∀ word ∈ statement.words, word.isComplete = true
  joined : ∀ statement ∈ statements.dropLast, statement.next ≠ none
  ended : ∀ statement, statements.getLast? = some statement → statement.next = none

variable {position : Position} {token : Token} {tokens : List Token}
  {statement : Statement} {statements following : List Statement}

namespace Chained

theorem nil : Chained [] := ⟨by simp, by simp, by simp⟩

theorem singleton (complete : ∀ word ∈ statement.words, word.isComplete = true)
    (last : statement.next = none) : Chained [statement] where
  complete := by simpa using complete
  joined := by simp
  ended := by simpa using last

theorem cons (complete : ∀ word ∈ statement.words, word.isComplete = true)
    (joined : statement.next ≠ none) (something : following ≠ [])
    (chained : Chained following) : Chained (statement :: following) where
  complete := List.forall_mem_cons.mpr ⟨complete, chained.complete⟩
  joined := by
    rw [List.dropLast_cons_of_ne_nil something]
    exact List.forall_mem_cons.mpr ⟨joined, chained.joined⟩
  ended := by
    intro last found
    rw [List.getLast?_cons_of_ne_nil something] at found
    exact chained.ended last found

/-- Either the first statement is the only one, or an operator leads on from it. -/
theorem cases (chained : Chained (statement :: following)) :
    (statement.next = none ∧ following = []) ∨
      ∃ operator, statement.next = some operator ∧ following ≠ [] ∧ Chained following := by
  by_cases alone : following = []
  · subst alone
    exact .inl ⟨chained.ended statement rfl, rfl⟩
  · have joined := chained.joined
    rw [List.dropLast_cons_of_ne_nil alone] at joined
    obtain ⟨here, joined⟩ := List.forall_mem_cons.mp joined
    obtain ⟨operator, next⟩ := Option.ne_none_iff_exists'.mp here
    refine .inr ⟨operator, next, alone, ?_, joined, ?_⟩
    · exact fun other member => chained.complete other (.tail _ member)
    · intro last found
      apply chained.ended last
      rwa [List.getLast?_cons_of_ne_nil alone]

end Chained

/-- The words read of the statement that has begun are complete. -/
def Position.Complete (position : Position) : Prop :=
  ∀ statement, position = .within statement → ∀ word ∈ statement.words, word.isComplete = true

theorem Position.Complete.addWord (read : position.Complete) (complete : token.isComplete = true) :
    (position.addWord token).Complete := by
  intro statement within
  cases position with
  | start | afterOperator =>
      cases within
      simpa [words] using complete
  | within begun =>
      cases within
      have before := read begun rfl
      simp only [words, List.forall_mem_cons] at before ⊢
      refine ⟨before.1, ?_⟩
      intro word member
      rcases List.mem_append.mp member with old | new
      · exact before.2 word old
      · obtain rfl := List.mem_singleton.mp new
        exact complete

theorem chained_of_accepted (unclosed : position.Unclosed) (read : position.Complete)
    (accepted : ofTokensAfter position tokens = .ok statements) : Chained statements := by
  induction tokens generalizing position statements with
  | nil =>
      cases position with
      | start =>
          obtain rfl : [] = statements := by simpa [ofTokensAfter] using accepted
          exact .nil
      | afterOperator => simp [ofTokensAfter] at accepted
      | within statement =>
          obtain rfl : [statement] = statements := by simpa [ofTokensAfter] using accepted
          exact .singleton (read statement rfl) (unclosed statement rfl)
  | cons token tokens ih =>
      rcases ofTokensAfter_cons_eq_ok accepted with
        ⟨complete, onward⟩ | ⟨operator, statement, following, kind, rfl, onward, rfl⟩
      · exact ih (unclosed.addWord token) (read.addWord complete) onward
      · have chained := ih (by simp [Position.Unclosed]) (by simp [Position.Complete]) onward
        exact .cons (read statement rfl) (by simp) (ne_nil_of_accepted (by simp) onward) chained

/-- A command with its arguments is read as the statement they belong to. -/
theorem ofTokensAfter_command (outside : ∀ statement, position ≠ .within statement)
    (complete : ∀ word ∈ statement.words, word.isComplete = true) :
    ofTokensAfter position (statement.words ++ tokens) =
      ofTokensAfter (.within { statement with next := none }) tokens := by
  obtain ⟨command, arguments⟩ := List.forall_mem_cons.mp complete
  have begun : position.addWord statement.command = .within ⟨statement.command, [], none⟩ := by
    cases position with
    | start | afterOperator => rfl
    | within other => exact absurd rfl (outside other)
  rw [words, List.cons_append, ofTokensAfter_word command, begun, ofTokensAfter_words arguments]
  rfl

/-- Tokens that list statements are read as these, where a line begins or goes on. -/
theorem accepted_of_flatten (chained : Chained statements)
    (outside : ∀ statement, position ≠ .within statement)
    (due : position ≠ .start → statements ≠ [])
    (same : flatten statements = tokens.map Token.item) :
    ofTokensAfter position tokens = .ok statements := by
  induction statements generalizing position tokens with
  | nil =>
      obtain rfl : tokens = [] := List.map_eq_nil_iff.mp same.symm
      cases position with
      | start => rfl
      | afterOperator => exact absurd rfl (due (by simp))
      | within statement => exact absurd rfl (outside statement)
  | cons statement following ih =>
      have complete := chained.complete statement (.head _)
      rw [flatten, List.flatMap_cons, ← flatten, items, List.append_assoc] at same
      obtain ⟨front, back, rfl, typed, behind⟩ := List.map_eq_append_iff.mp same.symm
      obtain rfl := Token.eq_of_map_item_eq_words typed
      rw [ofTokensAfter_command outside complete]
      rcases chained.cases with ⟨next, rfl⟩ | ⟨operator, next, something, chained⟩
      · obtain rfl : back = [] := by simpa [next, flatten] using behind
        obtain ⟨command, arguments, _⟩ := statement
        cases next
        rfl
      · rw [next, Option.map_some, Option.toList_some, List.singleton_append] at behind
        obtain ⟨token, tokens, rfl, here, same⟩ := List.map_eq_cons_iff.mp behind
        have onward : ofTokensAfter (.afterOperator operator token.span) tokens = .ok following :=
          ih chained (by simp) (fun _ => something) same.symm
        rw [ofTokensAfter_operator (Token.kind_of_item_eq_operator here), onward, ← next]
        rfl

/-- Reading and flattening are inverse to each other, and in what can be read no word or
operator is broken. -/
theorem reading_and_flattening_are_inverse (tokens : List Token) (statements : List Statement) :
    (ofTokens tokens = .ok statements ↔
      Chained statements ∧ flatten statements = tokens.map Token.item) ∧
    (ofTokens tokens = .ok statements →
      ∀ token ∈ tokens, token.isBrokenOperator = false ∧ token.isUnterminated = false) := by
  have unclosed : Position.start.Unclosed := by simp [Position.Unclosed]
  refine ⟨⟨fun accepted => ⟨?_, ?_⟩, fun read => ?_⟩, fun accepted token member => ?_⟩
  · exact chained_of_accepted unclosed (by simp [Position.Complete]) accepted
  · simpa [Position.items] using flatten_of_accepted unclosed accepted
  · exact accepted_of_flatten read.1 (by simp) (by simp) read.2
  · have sound : token.isSpoiled = false := by
      rcases complete_or_operator accepted token member with complete | operator
      · exact Token.isSpoiled_eq_false_of_isComplete complete
      · exact Token.isSpoiled_eq_false_of_isOperator operator
    simpa [Token.isSpoiled] using sound

/-- The tokens need not be those of any line: the operator here has no text, and the words
stand in the same place. -/
theorem tokens_of_no_line_are_read :
    Chained [⟨⟨.word, [], ['a'], none, true, ⟨0, 0⟩⟩, [], some .or⟩,
      ⟨⟨.word, ['&'], [], none, true, ⟨0, 0⟩⟩, [], none⟩] ∧
    ofTokens [⟨.word, [], ['a'], none, true, ⟨0, 0⟩⟩, ⟨.operator .or, [], [], none, false, ⟨7, 2⟩⟩,
      ⟨.word, ['&'], [], none, true, ⟨0, 0⟩⟩] =
        .ok [⟨⟨.word, [], ['a'], none, true, ⟨0, 0⟩⟩, [], some .or⟩,
          ⟨⟨.word, ['&'], [], none, true, ⟨0, 0⟩⟩, [], none⟩] := by
  have chained : Chained [⟨⟨.word, [], ['a'], none, true, ⟨0, 0⟩⟩, [], some .or⟩,
      ⟨⟨.word, ['&'], [], none, true, ⟨0, 0⟩⟩, [], none⟩] :=
    .cons (by simp [words, Token.isComplete, Token.isWord]) (by simp) (by simp)
      (.singleton (by simp [words, Token.isComplete, Token.isWord]) rfl)
  exact ⟨chained, (reading_and_flattening_are_inverse _ _).1.mpr ⟨chained, rfl⟩⟩

end Statement

end LineShell
