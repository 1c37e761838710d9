import LineShell.Text.Basic

namespace LineShell.Toml

/-! Reading TOML texts piece by piece.

A reader takes what it wants from the front of a text, or fails. A loop has as
many turns as the text has characters, since every turn takes at least one.
-/

/-- Takes something from the front of a text. -/
abbrev Reader := StateT Text Option

namespace Reader

def next : Reader Char
  | [] => none
  | c :: rest => some (c, rest)

/-- The next character, which stays where it is. -/
def peek? : Reader (Option Char) := fun text => some (text.head?, text)

def char (c : Char) : Reader Unit := do
  if (← next) = c then return () else failure

/-- The text is there and is taken. -/
def taken (lead : Text) : Reader Bool := fun text =>
  if lead.isPrefixOf text then some (true, text.drop lead.length)
  else some (false, text)

def takeWhile (wanted : Char → Bool) : Reader Text := fun text =>
  some (text.takeWhile wanted, text.dropWhile wanted)

def endOfText : Reader Unit
  | [] => some ((), [])
  | _ => none

/-- How often a character stands at the front, at most `limit` times; these are
taken. -/
def count (c : Char) (limit : Nat) : Reader Nat := fun text =>
  let found := ((text.take limit).takeWhile (· = c)).length
  some (found, text.drop found)

/-- Reads items until there is none. -/
def many {α : Type} (item : Reader (Option α)) : Reader (List α) := fun text =>
  go (text.length + 1) text
where
  go : Nat → Reader (List α)
    | 0 => failure
    | fuel + 1 => do
        match ← item with
        | none => return []
        | some value => return value :: (← go fuel)

end Reader

open Reader

/-! Characters. -/

def isSpace (c : Char) : Bool := c = ' ' || c = '\t'

def isBeyondAscii (c : Char) : Bool := 0x80 ≤ c.toNat

/-- A character that shows, a blank or a tab. -/
def isVisible (c : Char) : Bool :=
  c = '\t' || (0x20 ≤ c.toNat && c.toNat ≤ 0x7E) || isBeyondAscii c

/-- A character that may stand in a key without quotes. -/
def isBareKeyChar (c : Char) : Bool := c.isAlphanum || c = '_' || c = '-'

def isHexDigit (c : Char) : Bool :=
  c.isDigit || ('a' ≤ c && c ≤ 'f') || ('A' ≤ c && c ≤ 'F')

def hexDigitValue (c : Char) : Nat :=
  if c.isDigit then c.toNat - '0'.toNat
  else if 'a' ≤ c then c.toNat - 'a'.toNat + 10
  else c.toNat - 'A'.toNat + 10

/-! Blanks, line ends and comments. -/

def spaces : Reader Unit := do
  let _ ← takeWhile isSpace
  return ()

/-- A newline, with or without a carriage return before it. -/
def newline? : Reader Bool := do
  if ← taken ['\n'] then return true
  taken ['\r', '\n']

def newline : Reader Unit := do
  if ← newline? then return () else failure

def comment? : Reader Unit := do
  if ← taken ['#'] then
    let _ ← takeWhile isVisible
    return ()

/-- The end of the line or of the document. -/
def lineEnd : Reader Unit := do
  match ← peek? with
  | none => return ()
  | some _ => newline

/-- What may follow a complete piece on its line. -/
def lineRest : Reader Unit := do
  spaces
  comment?
  lineEnd

/-- Blanks, comments and newlines in any number. -/
def emptyLines : Reader Unit := do
  let _ ← many do
    spaces
    match ← peek? with
    | some '#' =>
        comment?
        lineEnd
        return some ()
    | some '\n' | some '\r' =>
        newline
        return some ()
    | _ => return none
  return ()

end LineShell.Toml
