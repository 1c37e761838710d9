import LineShell.Text.Blank
import LineShell.Token

namespace LineShell

/-! Looking around in a line that need not be finished.

A cursor stands on one token and sees the tokens on either side, the nearest
first. Every question about a position has an answer, also where the line has
defects; none of them fails.
-/

structure Cursor where
  /-- The tokens before this one, the nearest first. -/
  before : List Token
  token : Token
  /-- The tokens after this one, the nearest first. -/
  after : List Token
deriving DecidableEq, Repr

namespace Cursor

/-- All positions from a point on, given the tokens before it. -/
def allFrom (before : List Token) : List Token → List Cursor
  | [] => []
  | token :: after => ⟨before, token, after⟩ :: allFrom (token :: before) after

def all (tokens : List Token) : List Cursor := allFrom [] tokens

/-- The position of the token with the given number, counted from zero. -/
def at? (tokens : List Token) (index : Nat) : Option Cursor := (all tokens)[index]?

def first? (tokens : List Token) : Option Cursor := (all tokens).head?

def last? (tokens : List Token) : Option Cursor := (all tokens).getLast?

def tokens (cursor : Cursor) : List Token :=
  cursor.before.reverse ++ cursor.token :: cursor.after

def index (cursor : Cursor) : Nat := cursor.before.length

def isFirst (cursor : Cursor) : Bool := cursor.before.isEmpty

def isLast (cursor : Cursor) : Bool := cursor.after.isEmpty

def advance? (cursor : Cursor) : Option Cursor :=
  match cursor.after with
  | [] => none
  | token :: after => some ⟨cursor.token :: cursor.before, token, after⟩

def retreat? (cursor : Cursor) : Option Cursor :=
  match cursor.before with
  | [] => none
  | token :: before => some ⟨before, token, cursor.token :: cursor.after⟩

/-- The nearest position that satisfies `wanted`, from this one leftward. -/
def findBack? (wanted : Cursor → Bool) (cursor : Cursor) : Option Cursor :=
  go cursor.before cursor.token cursor.after
where
  go : List Token → Token → List Token → Option Cursor
    | before, token, after =>
        if wanted ⟨before, token, after⟩ then some ⟨before, token, after⟩
        else
          match before with
          | [] => none
          | previous :: before => go before previous (token :: after)

/-- A word at the start of the line or right after an operator. -/
def isCommand (cursor : Cursor) : Bool :=
  cursor.token.isWord && cursor.before.head?.all Token.isOperator

/-- A `--` outside quotes, after which a statement takes no more options. -/
def endsOptions (token : Token) : Bool :=
  token.isWord && token.quote.isNone && token.content = ['-', '-']

/-- No token that ends the options stands before in the same statement. -/
def optionsAllowed (cursor : Cursor) : Bool :=
  (cursor.before.takeWhile (!·.isOperator)).all (!endsOptions ·)

/-- A word with a dash, in the place of an argument, where options are still
taken. The token that ends the options is itself one. -/
def isOption (cursor : Cursor) : Bool :=
  cursor.token.isWord && cursor.token.content.head? = some '-' &&
    !cursor.isCommand && cursor.optionsAllowed

/-- The command that the word or operator belongs to. -/
def owner? (cursor : Cursor) : Option Cursor := cursor.findBack? isCommand

def gap (cursor : Cursor) (line : Text) : Text :=
  match cursor.after with
  | [] => []
  | next :: _ => (line.slice? cursor.token.span.stop next.span.start).getD []

/-- The text before the first token; all of the line if there is none. -/
def leading (tokens : List Token) (line : Text) : Text :=
  match tokens with
  | [] => line
  | token :: _ => (line.slice? 0 token.span.start).getD []

/-- The text after the last token; nothing if there is none. -/
def trailing (tokens : List Token) (line : Text) : Text :=
  match tokens.getLast? with
  | none => []
  | some token => (line.dropBytes? token.span.stop).getD []

/-- What follows the last token, unless the line ends in a blank. Other
positions have no suffix. -/
def suffix? (cursor : Cursor) (line : Text) : Option Text :=
  if !cursor.isLast || Text.endsBlank line then none
  else
    match trailing [cursor.token] line with
    | [] => none
    | text => some text

end Cursor

end LineShell
