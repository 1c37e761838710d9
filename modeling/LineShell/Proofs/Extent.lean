import LineShell.Cursor
import LineShell.Proofs.Parsing

namespace LineShell

/-! Where the statements of a line stand.

The positions in an accepted line fall into extents, one for each statement: its
command, its arguments and the operator behind it. Looking back from any position
of an extent finds its command, which is the only position in it that counts as a
command.
-/

namespace Cursor

theorem before_of_retreat? {cursor previous : Cursor}
    (back : cursor.retreat? = some previous) :
    cursor.before = previous.token :: previous.before ∧
      previous.after = cursor.token :: cursor.after := by
  obtain ⟨before, token, after⟩ := cursor
  cases before with
  | nil => simp [retreat?] at back
  | cons nearest before =>
      obtain rfl : ⟨before, nearest, token :: after⟩ = previous := by simpa [retreat?] using back
      exact ⟨rfl, rfl⟩

theorem owner?_of_isCommand {cursor : Cursor} (command : cursor.isCommand = true) :
    cursor.owner? = some cursor := by
  unfold owner? findBack? findBack?.go
  exact if_pos command

theorem owner?_of_retreat? {cursor previous : Cursor} (other : cursor.isCommand = false)
    (back : cursor.retreat? = some previous) : cursor.owner? = previous.owner? := by
  obtain ⟨before, token, after⟩ := cursor
  obtain ⟨rfl, behind⟩ := before_of_retreat? back
  unfold owner? findBack?
  rw [findBack?.go, if_neg (by simp [other]), behind]

theorem index_allFrom (before tokens : List Token) :
    (allFrom before tokens).map index = List.range' before.length tokens.length := by
  induction tokens generalizing before with
  | nil => rfl
  | cons token tokens ih => simp [allFrom, index, ih, List.range'_succ]

theorem nodup_all (tokens : List Token) : (all tokens).Nodup := by
  have indices : ((all tokens).map index).Nodup := by
    rw [all, index_allFrom]
    exact List.nodup_range'
  exact List.Pairwise.of_map index (fun _ _ distinct same => distinct (same ▸ rfl)) indices

end Cursor

structure Extent where
  command : Cursor
  arguments : List Cursor
  operator : Option Cursor

namespace Extent

def cursors (extent : Extent) : List Cursor :=
  extent.command :: extent.arguments ++ extent.operator.toList

def statement (extent : Extent) : Statement where
  command := extent.command.token
  arguments := extent.arguments.map Cursor.token
  next := extent.operator.bind (·.token.operator?)

/-- Looking around within the extent shows the statement. -/
structure Sound (extent : Extent) : Prop where
  command : extent.command.isCommand = true
  arguments : ∀ cursor ∈ extent.arguments,
    cursor.token.isWord = true ∧ cursor.isCommand = false
  operator : ∀ cursor ∈ extent.operator, cursor.token.isOperator = true
  owner : ∀ cursor ∈ extent.cursors, cursor.owner? = some extent.command

/-- The extent so far of a statement whose operator has not been met, and the
position that was looked at last. -/
structure Begun (extent : Extent) (last : Cursor) : Prop extends extent.Sound where
  unclosed : extent.operator = none
  last_word : last.token.isWord = true
  last_owner : last.owner? = some extent.command

variable {extent : Extent} {cursor last : Cursor}

theorem begun_of_isCommand (command : cursor.isCommand = true) :
    Begun ⟨cursor, [], none⟩ cursor where
  command := command
  arguments := by simp
  operator := by simp
  owner := by simpa [cursors] using Cursor.owner?_of_isCommand command
  unclosed := rfl
  last_word := by
    simp only [Cursor.isCommand, Bool.and_eq_true] at command
    exact command.1
  last_owner := Cursor.owner?_of_isCommand command

theorem Begun.isCommand_eq_false (begun : extent.Begun last)
    (back : cursor.retreat? = some last) : cursor.isCommand = false := by
  have before := (Cursor.before_of_retreat? back).1
  have kind := Token.kind_of_isWord begun.last_word
  simp [Cursor.isCommand, before, Token.isOperator, Token.operator?, kind]

theorem Begun.owner? (begun : extent.Begun last) (back : cursor.retreat? = some last) :
    cursor.owner? = some extent.command := by
  rw [Cursor.owner?_of_retreat? (begun.isCommand_eq_false back) back]
  exact begun.last_owner

theorem Begun.addArgument (begun : extent.Begun last) (back : cursor.retreat? = some last)
    (word : cursor.token.isWord = true) :
    Begun { extent with arguments := extent.arguments ++ [cursor] } cursor where
  command := begun.command
  arguments := by
    intro argument member
    rcases List.mem_append.mp member with old | new
    · exact begun.arguments argument old
    · obtain rfl := List.mem_singleton.mp new
      exact ⟨word, begun.isCommand_eq_false back⟩
  operator := begun.operator
  owner := by
    have owners := begun.owner
    have owner := begun.owner? back
    simp only [cursors] at owners ⊢
    grind
  unclosed := begun.unclosed
  last_word := word
  last_owner := begun.owner? back

theorem Begun.close (begun : extent.Begun last) (back : cursor.retreat? = some last)
    (operator : cursor.token.isOperator = true) :
    Sound { extent with operator := some cursor } where
  command := begun.command
  arguments := begun.arguments
  operator := by simpa using operator
  owner := by
    have owners := begun.owner
    have owner := begun.owner? back
    simp only [cursors] at owners ⊢
    grind

/-- The extents that some positions fall into, with the statements there. -/
structure Cover (positions : List Cursor) (statements : List Statement)
    (extents : List Extent) : Prop where
  positions : positions = extents.flatMap cursors
  statements : extents.map statement = statements
  sound : ∀ extent ∈ extents, extent.Sound

theorem Cover.cons {positions : List Cursor} {statements : List Statement}
    {extents : List Extent} (sound : extent.Sound)
    (rest : Cover positions statements extents) :
    Cover (extent.cursors ++ positions) (extent.statement :: statements)
      (extent :: extents) where
  positions := by rw [rest.positions, List.flatMap_cons]
  statements := by rw [List.map_cons, rest.statements]
  sound := by simpa using ⟨sound, rest.sound⟩

open Statement in
theorem exists_cover (tokens : List Token) :
    (∀ before position statements,
      (∀ statement, position ≠ .within statement) →
      before.head?.all Token.isOperator = true →
      ofTokensAfter position tokens = .ok statements →
      ∃ extents, Cover (Cursor.allFrom before tokens) statements extents) ∧
    ∀ (last : Cursor) (extent : Extent) statements, last.after = tokens →
      extent.Begun last →
      ofTokensAfter (.within extent.statement) tokens = .ok statements →
      ∃ extents,
        Cover (extent.cursors ++ Cursor.allFrom (last.token :: last.before) tokens)
          statements extents := by
  -- Outside a statement, and within one that has begun, by turns.
  induction tokens with
  | nil =>
      constructor
      · intro before position statements outside _ accepted
        cases position with
        | start =>
            obtain rfl : [] = statements := by simpa [ofTokensAfter] using accepted
            exact ⟨[], rfl, rfl, by simp⟩
        | afterOperator => simp [ofTokensAfter] at accepted
        | within statement => exact absurd rfl (outside statement)
      · intro last extent statements _ begun accepted
        obtain rfl : [extent.statement] = statements := by
          simpa [ofTokensAfter] using accepted
        exact ⟨[extent], .cons begun.toSound ⟨rfl, rfl, by simp⟩⟩
  | cons token tokens ih =>
      constructor
      · intro before position statements outside start accepted
        obtain ⟨complete, accepted⟩ := ofTokensAfter_outside outside accepted
        have word := Token.isWord_of_isComplete complete
        have begun : Begun ⟨⟨before, token, tokens⟩, [], none⟩ ⟨before, token, tokens⟩ := by
          apply begun_of_isCommand
          rw [Cursor.isCommand, word, start]
          rfl
        have position_eq : position.addWord token = .within ⟨token, [], none⟩ := by
          cases position with
          | start | afterOperator => rfl
          | within statement => exact absurd rfl (outside statement)
        rw [position_eq] at accepted
        exact ih.2 ⟨before, token, tokens⟩ _ statements rfl begun accepted
      · intro last extent statements after begun accepted
        have back : Cursor.retreat? ⟨last.token :: last.before, token, tokens⟩ = some last := by
          simp [Cursor.retreat?, ← after]
        rcases ofTokensAfter_cons_eq_ok accepted with
          ⟨complete, accepted⟩ | ⟨operator, statement, following, kind, within, afterwards, rfl⟩
        · have longer := begun.addArgument back (Token.isWord_of_isComplete complete)
          have covered := ih.2 ⟨last.token :: last.before, token, tokens⟩ _ statements rfl longer
            (by simpa [Position.addWord, Extent.statement, begun.unclosed] using accepted)
          simpa [cursors, Cursor.allFrom, begun.unclosed] using covered
        · cases within
          have closed := begun.close back (Token.isOperator_of_kind kind)
          obtain ⟨extents, covered⟩ := ih.1 (token :: last.token :: last.before)
            (.afterOperator operator token.span) following
            (by simp) (Token.isOperator_of_kind kind) afterwards
          refine ⟨{ extent with operator := some ⟨last.token :: last.before, token, tokens⟩ } ::
            extents, ?_⟩
          simpa [cursors, Cursor.allFrom, Extent.statement, begun.unclosed,
            Token.operator?, kind] using covered.cons closed

theorem Sound.filter_isCommand (sound : extent.Sound) :
    extent.cursors.filter Cursor.isCommand = [extent.command] := by
  have arguments : extent.arguments.filter Cursor.isCommand = [] := by
    rw [List.filter_eq_nil_iff]
    intro cursor member
    simp [(sound.arguments cursor member).2]
  have operator : extent.operator.toList.filter Cursor.isCommand = [] := by
    rw [List.filter_eq_nil_iff]
    intro cursor member
    have other := Token.isWord_eq_false_of_isOperator
      (sound.operator cursor (Option.mem_toList.mp member))
    simp [Cursor.isCommand, other]
  simp [cursors, sound.command, arguments, operator]

/-- A word of a statement that is not its command. -/
def isArgument (extent : Extent) (cursor : Cursor) : Bool :=
  cursor.token.isWord && !cursor.isCommand && cursor.owner? = some extent.command

theorem Sound.filter_isArgument (sound : extent.Sound) :
    extent.cursors.filter extent.isArgument = extent.arguments := by
  have command : extent.isArgument extent.command = false := by
    simp [isArgument, sound.command]
  have arguments : extent.arguments.filter extent.isArgument = extent.arguments := by
    rw [List.filter_eq_self]
    intro cursor member
    have owner : cursor.owner? = some extent.command :=
      sound.owner cursor (by simp [cursors, member])
    simp [isArgument, sound.arguments cursor member, owner]
  have operator : extent.operator.toList.filter extent.isArgument = [] := by
    rw [List.filter_eq_nil_iff]
    intro cursor member
    have other := Token.isWord_eq_false_of_isOperator
      (sound.operator cursor (Option.mem_toList.mp member))
    simp [isArgument, other]
  simp [cursors, command, arguments, operator]

/-- Words of other statements have other owners. -/
theorem Sound.filter_isArgument_of_disjoint {others : List Extent}
    (sound : ∀ other ∈ others, other.Sound)
    (apart : extent.command ∉ others.flatMap cursors) :
    (others.flatMap cursors).filter extent.isArgument = [] := by
  rw [List.filter_eq_nil_iff]
  intro cursor member
  obtain ⟨other, among, within⟩ := List.mem_flatMap.mp member
  have distinct : other.command ≠ extent.command := by
    intro same
    exact apart (List.mem_flatMap.mpr ⟨other, among, by simp [cursors, same]⟩)
  simp [isArgument, (sound other among).owner cursor within, distinct]

variable {positions : List Cursor} {statements : List Statement} {extents : List Extent}

theorem Cover.filter_isCommand (cover : Cover positions statements extents) :
    positions.filter Cursor.isCommand = extents.map command := by
  have sound := cover.sound
  rw [cover.positions]
  clear cover
  induction extents with
  | nil => rfl
  | cons extent extents ih =>
      rw [List.flatMap_cons, List.filter_append, (sound extent (by simp)).filter_isCommand,
        ih fun other member => sound other (.tail _ member)]
      rfl

theorem Cover.filter_isArgument (cover : Cover positions statements extents)
    (distinct : positions.Nodup) (member : extent ∈ extents) :
    positions.filter extent.isArgument = extent.arguments := by
  obtain ⟨rfl, _, sound⟩ := cover
  obtain ⟨front, back, rfl⟩ := List.append_of_mem member
  have command : extent.command ∈ extent.cursors := by simp [cursors]
  rw [List.flatMap_append, List.flatMap_cons, List.nodup_append, List.nodup_append] at distinct
  obtain ⟨_, ⟨_, _, after⟩, before⟩ := distinct
  have none_before : (front.flatMap cursors).filter extent.isArgument = [] :=
    Sound.filter_isArgument_of_disjoint (fun other among => sound other (by simp [among]))
      fun among => before _ among _ (List.mem_append_left _ command) rfl
  have none_after : (back.flatMap cursors).filter extent.isArgument = [] :=
    Sound.filter_isArgument_of_disjoint (fun other among => sound other (by simp [among]))
      fun among => after _ command _ among rfl
  rw [List.flatMap_append, List.flatMap_cons, List.filter_append, List.filter_append,
    none_before, none_after, (sound extent member).filter_isArgument]
  simp

end Extent

/-- An accepted line has the structure that looking around in it shows. -/
theorem looking_around_shows_statements {tokens : List Token} {statements : List Statement}
    (accepted : Statement.ofTokens tokens = .ok statements) :
    ∃ extents : List Extent,
      Cursor.all tokens = extents.flatMap Extent.cursors ∧
      extents.map Extent.statement = statements ∧
      (Cursor.all tokens).filter Cursor.isCommand = extents.map Extent.command ∧
      ∀ extent ∈ extents,
        (∀ cursor ∈ extent.operator, cursor.token.isOperator = true) ∧
        (∀ cursor ∈ extent.cursors, cursor.owner? = some extent.command) ∧
        (Cursor.all tokens).filter (fun cursor => cursor.token.isWord && !cursor.isCommand &&
          cursor.owner? = some extent.command) = extent.arguments := by
  obtain ⟨extents, cover⟩ := (Extent.exists_cover tokens).1 [] .start statements
    (by simp) rfl accepted
  refine ⟨extents, cover.positions, cover.statements, cover.filter_isCommand, ?_⟩
  intro extent member
  have sound := cover.sound extent member
  exact ⟨sound.operator, sound.owner,
    cover.filter_isArgument (Cursor.nodup_all tokens) member⟩

theorem looking_around_shows_two_commands :
    ∃ extents : List Extent, extents.map Extent.statement =
      [⟨⟨.word, ['a'], ['a'], none, true, ⟨0, 1⟩⟩, [], some .sequence⟩,
        ⟨⟨.word, ['b'], ['b'], none, true, ⟨2, 3⟩⟩, [], none⟩] := by
  have accepted : Statement.ofTokens
      [⟨.word, ['a'], ['a'], none, true, ⟨0, 1⟩⟩,
        ⟨.operator .sequence, [';'], [';'], none, true, ⟨1, 2⟩⟩,
        ⟨.word, ['b'], ['b'], none, true, ⟨2, 3⟩⟩] =
      .ok [⟨⟨.word, ['a'], ['a'], none, true, ⟨0, 1⟩⟩, [], some .sequence⟩,
        ⟨⟨.word, ['b'], ['b'], none, true, ⟨2, 3⟩⟩, [], none⟩] := rfl
  obtain ⟨extents, _, statements, _⟩ := looking_around_shows_statements accepted
  exact ⟨extents, statements⟩

end LineShell
