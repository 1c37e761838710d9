import LineShell.Operator
import LineShell.Span

namespace LineShell

/-! The words and operators of a line.

A token keeps the text it was read from beside the value that the text denotes,
and the place of that text in the line.
-/

inductive Quote where
  | single
  | double
deriving DecidableEq, Repr

def Quote.char : Quote → Char
  | .single => '\''
  | .double => '"'

inductive TokenKind where
  | operator (operator : Operator)
  /-- A lone `&` or `|`: the beginning of an operator that does not go on. -/
  | brokenOperator
  | word
deriving DecidableEq, Repr

structure Token where
  kind : TokenKind
  /-- The value, without quotes and escapes. -/
  content : Text
  /-- The text it was read from. -/
  raw : Text
  /-- The quotes that opened first, if any did. -/
  quote : Option Quote
  /-- No quotes are open at the end. -/
  terminated : Bool
  span : Span
deriving DecidableEq, Repr

namespace Token

def isWord (token : Token) : Bool := token.kind = .word

def operator? (token : Token) : Option Operator :=
  match token.kind with
  | .operator operator => some operator
  | _ => none

def isOperator (token : Token) : Bool := token.operator?.isSome

def isBrokenOperator (token : Token) : Bool := token.kind = .brokenOperator

def isQuoted (token : Token) : Bool := token.quote.isSome

/-- A word whose quotes are still open. -/
def isUnterminated (token : Token) : Bool := token.isWord && !token.terminated

/-- A word whose quotes, if any, are closed. -/
def isComplete (token : Token) : Bool := token.isWord && token.terminated

end Token

end LineShell
