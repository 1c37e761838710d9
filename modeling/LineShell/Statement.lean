import LineShell.Defect
import LineShell.Text.ShellQuoted

namespace LineShell

/-! Statements.

A statement is a command word with its argument words, and the operator that
decides whether the next one runs. `ofTokens` builds the statements of a line or
names its leftmost defect; `flatten` lists the tokens back.
-/

/-- A command with its arguments. -/
structure Statement where
  command : Token
  arguments : List Token
  /-- What gates the next statement. -/
  next : Option Operator
deriving DecidableEq, Repr

namespace Statement

def name (statement : Statement) : Text := statement.command.content

def argumentValues (statement : Statement) : List Text :=
  statement.arguments.map Token.content

def words (statement : Statement) : List Token :=
  statement.command :: statement.arguments

/-- A word quoted where it has to be; one that cannot be quoted as it was
typed. -/
def renderWord (word : Token) : Text :=
  (ShellQuoted.quote? word.content).getD word.raw

/-- The statement as a line that reads back. -/
def render (statement : Statement) : Text :=
  Text.join [' '] (statement.words.map renderWord) ++
    match statement.next with
    | none => []
    | some operator => ' ' :: operator.text

/-- How far a line has been taken apart. -/
inductive Position where
  | start
  | afterOperator (operator : Operator) (span : Span)
  | within (statement : Statement)

/-- A word begins a statement or adds an argument to the one that has begun. -/
def Position.addWord : Position → Token → Position
  | .within statement, word =>
      .within { statement with arguments := statement.arguments ++ [word] }
  | _, word => .within ⟨word, [], none⟩

/-- The statements of the tokens that follow a position. -/
def ofTokensAfter : Position → List Token → Except Defect (List Statement)
  | .start, [] => .ok []
  | .afterOperator operator span, [] => .error (.dangling operator span)
  | .within statement, [] => .ok [statement]
  | position, token :: tokens =>
      match token.kind with
      | .word =>
          if token.terminated then ofTokensAfter (position.addWord token) tokens
          else .error (.unterminated token.quote token.span)
      | .operator operator =>
          match position with
          | .within statement =>
              (ofTokensAfter (.afterOperator operator token.span) tokens).map
                ({ statement with next := some operator } :: ·)
          | _ => .error (.missingCommand operator token.span)
      | .brokenOperator => .error (.brokenOperator token.raw token.span)

/-- The statements of a line, or its leftmost defect. -/
def ofTokens (tokens : List Token) : Except Defect (List Statement) :=
  ofTokensAfter .start tokens

/-- A word or an operator, where the place in the line does not matter. -/
inductive Item where
  | word (token : Token)
  | operator (operator : Operator)
deriving DecidableEq, Repr

def items (statement : Statement) : List Item :=
  statement.words.map .word ++ (statement.next.map Item.operator).toList

def flatten (statements : List Statement) : List Item :=
  statements.flatMap items

end Statement

end LineShell
