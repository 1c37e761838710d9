import LineShell.Catalog
import LineShell.Cursor
import LineShell.Token.Scan

namespace LineShell

/-! Styles for the parts of a line.

A line is cut into segments, one for each token and each stretch of text
between tokens. The texts of the segments are the line, in order; none of them
is empty.
-/

inductive Style where
  | action
  | partialAction
  /-- The quote that begins a word whose quotes never close. -/
  | unterminatedQuote
  | unterminatedString
  | validCommand
  | invalidCommand
  | quotedArgument
  | argument
  | whitespace
  /-- A comment after the last token. -/
  | trailing
deriving DecidableEq, Repr

def Style.name : Style → Text
  | .action => "Action".toList
  | .partialAction => "PartialAction".toList
  | .unterminatedQuote => "UnterminatedQuote".toList
  | .unterminatedString => "UnterminatedString".toList
  | .validCommand => "ValidCommand".toList
  | .invalidCommand => "InvalidCommand".toList
  | .quotedArgument => "QuotedArgument".toList
  | .argument => "Argument".toList
  | .whitespace => "Whitespace".toList
  | .trailing => "Trailing".toList

structure Segment where
  style : Style
  text : Text
deriving DecidableEq, Repr

namespace Segment

/-- A segment, unless the text is empty. -/
def ofText (style : Style) (text : Text) : List Segment :=
  if text.isEmpty then [] else [⟨style, text⟩]

/-- Leading blanks, then the rest. -/
def ofTrailing (text : Text) : List Segment :=
  ofText .whitespace (text.takeWhile Text.isBlank) ++
    ofText .trailing (text.dropWhile Text.isBlank)

/-- The style of a token that is not split. -/
def tokenStyle (catalog : Catalog) (cursor : Cursor) : Style :=
  match cursor.token.kind with
  | .operator _ => .action
  | .brokenOperator => .partialAction
  | .word =>
      if !cursor.token.terminated then .unterminatedString
      else if cursor.isCommand then
        if catalog.isCommand cursor.token.content then .validCommand
        else .invalidCommand
      else if cursor.token.isQuoted then .quotedArgument
      else .argument

/-- The token is a word whose quotes never close, and begins with the character
of the quotes that opened first in it. -/
def opensWithQuote (token : Token) : Bool :=
  token.isUnterminated &&
    match token.quote with
    | none => false
    | some quote => token.raw.head? = some quote.char

def ofToken (catalog : Catalog) (cursor : Cursor) : List Segment :=
  if opensWithQuote cursor.token then
    ofText .unterminatedQuote (cursor.token.raw.take 1) ++
      ofText .unterminatedString (cursor.token.raw.drop 1)
  else ofText (tokenStyle catalog cursor) cursor.token.raw

/-- The segments of a token and of the text up to the next one. -/
def ofCursor (catalog : Catalog) (line : Text) (cursor : Cursor) : List Segment :=
  ofToken catalog cursor ++ ofText .whitespace (cursor.gap line)

def ofLine (catalog : Catalog) (line : Text) : List Segment :=
  match Token.scan line with
  | [] => ofTrailing line
  | tokens =>
      ofText .whitespace (Cursor.leading tokens line) ++
        (Cursor.all tokens).flatMap (ofCursor catalog line) ++
        ofTrailing (Cursor.trailing tokens line)

/-- The line that the segments cover. -/
def joined (segments : List Segment) : Text := segments.flatMap (·.text)

end Segment

end LineShell
