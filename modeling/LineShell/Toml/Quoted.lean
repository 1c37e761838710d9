import LineShell.Toml.Reader

namespace LineShell.Toml

open Reader

/-! Reading strings.

A string stands in double quotes, where a backslash begins an escape, or in
single quotes, where it does not. Three quotes open a string that may go over
several lines: a newline directly after them is not part of it, and its line
ends are newlines however they are written.
-/

/-- The character whose code is written in so many hexadecimal digits. -/
def codePoint (digits : Nat) : Reader Char := fun text =>
  let written := text.take digits
  let code := written.foldl (fun code c => code * 16 + hexDigitValue c) 0
  if written.length = digits ∧ written.all isHexDigit ∧ code.isValidChar then
    some (Char.ofNat code, text.drop digits)
  else none

/-- The character that an escape stands for, after its backslash. -/
def escape : Reader Char := do
  match ← next with
  | 'b' => return '\x08'
  | 't' => return '\t'
  | 'n' => return '\n'
  | 'f' => return '\x0c'
  | 'r' => return '\r'
  | '"' => return '"'
  | '\\' => return '\\'
  | 'u' => codePoint 4
  | 'U' => codePoint 8
  | _ => failure

/-- The quotes that a string may stand in. -/
structure Quotes where
  mark : Char
  /-- A backslash begins an escape. -/
  escapes : Bool

def Quotes.double : Quotes := ⟨'"', true⟩

def Quotes.single : Quotes := ⟨'\'', false⟩

/-- A string on one line, after its opening quote. -/
def shortString (quotes : Quotes) : Reader Text :=
  many do
    let c ← next
    if c = quotes.mark then return none
    else if quotes.escapes && c = '\\' then return some (← escape)
    else if isVisible c then return some c
    else failure

/-- The end of the line after a backslash, which takes away all blanks and
newlines that follow. -/
def lineContinuation : Reader Bool := fun text =>
  match (spaces *> newline) text with
  | none => some (false, text)
  | some (_, rest) => (true, ·.2) <$> many blankOrNewline? rest
where
  blankOrNewline? : Reader (Option Unit) := do
    match ← takeWhile isSpace with
    | [] => return if ← newline? then some () else none
    | _ => return some ()

/-- A piece of a string over several lines, unless three quotes follow. -/
def longPiece? (quotes : Quotes) : Reader (Option Text) := do
  if (← get).take 3 = List.replicate 3 quotes.mark then return none
  if ← newline? then return some ['\n']
  let c ← next
  if quotes.escapes && c = '\\' then
    if ← lineContinuation then return some []
    else return some [← escape]
  else if isVisible c then return some [c]
  else failure

/-- A string over several lines, after its opening quotes. Up to two quotes just
before the three that close it belong to it. -/
def longString (quotes : Quotes) : Reader Text := do
  let _ ← newline?
  let pieces ← many (longPiece? quotes)
  let closing ← count quotes.mark 5
  return pieces.flatten ++ List.replicate (closing - 3) quotes.mark

/-- A string in one kind of quotes, on one line or several. -/
def quotedString (quotes : Quotes) : Reader Text := do
  if ← taken (List.replicate 3 quotes.mark) then longString quotes
  else
    char quotes.mark
    shortString quotes

end LineShell.Toml
