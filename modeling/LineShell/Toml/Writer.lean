import LineShell.Toml.Quoted

namespace LineShell.Toml

/-! Writing strings and tables of strings.

A string is written in the plainest form that can hold it as it is: on one line
before over several lines, and in double quotes before single ones. If there is
none, it is written with escapes.
-/

/-- A form in which a string may be written. -/
structure StringForm where
  quotes : Quotes
  /-- Between three quotes, where newlines stand for themselves. -/
  long : Bool

/-- A character that only an escape can stand for. -/
def isControl (c : Char) : Bool :=
  (c.toNat < 0x20 && c ≠ '\t' && c ≠ '\n') || c.toNat = 0x7F

/-- How often a character stands in a row at most, after `current` of it. -/
def longestRun (c : Char) (current : Nat) : Text → Nat
  | [] => current
  | other :: rest =>
      if other = c then longestRun c (current + 1) rest
      else max current (longestRun c 0 rest)

namespace StringForm

/-- How many quotes in a row may stand within the string. -/
def quotesAllowed (form : StringForm) : Nat := if form.long then 2 else 0

/-- The form can hold the string as it is. -/
def fits (form : StringForm) (text : Text) : Bool :=
  !text.any isControl && (form.long || !text.contains '\n') &&
    !(form.quotes.escapes && text.contains '\\') &&
    longestRun form.quotes.mark 0 text ≤ form.quotesAllowed

/-- The forms, the plainest first. -/
def all : List StringForm :=
  [⟨.double, false⟩, ⟨.single, false⟩, ⟨.double, true⟩, ⟨.single, true⟩]

/-- The form that a string is written in. -/
def preferred (text : Text) : StringForm :=
  (all.find? (·.fits text)).getD ⟨.double, text.contains '\n'⟩

end StringForm

/-- The escape of a character that double quotes cannot hold, or the character
itself. -/
def writeChar (long : Bool) (c : Char) : Text :=
  match c with
  | '\x08' => ['\\', 'b']
  | '\t' => ['\\', 't']
  | '\x0c' => ['\\', 'f']
  | '\r' => ['\\', 'r']
  | '\\' => ['\\', '\\']
  | '\n' => if long then ['\n'] else ['\\', 'n']
  | c =>
      if isControl c then
        ['\\', 'u', '0', '0'] ++
          [c.toNat / 16, c.toNat % 16].map fun digit => (Nat.digitChar digit).toUpper
      else [c]

/-- A string with escapes where it needs them, `quotes` double quotes in a row
having been written just before it. -/
def writeEscaped (form : StringForm) (quotes : Nat) : Text → Text
  | [] => []
  | '"' :: rest =>
      if quotes = form.quotesAllowed then
        ['\\', '"'] ++ writeEscaped form 0 rest
      else '"' :: writeEscaped form (quotes + 1) rest
  | c :: rest => writeChar form.long c ++ writeEscaped form 0 rest

/-- A string in the form for it. A newline follows the opening quotes of a string
with newlines. -/
def writeString (text : Text) : Text :=
  let form := StringForm.preferred text
  let marks := List.replicate (if form.long then 3 else 1) form.quotes.mark
  marks ++ (if form.long && text.contains '\n' then ['\n'] else []) ++
    (if form.quotes.escapes then writeEscaped form 0 text else text) ++ marks

/-- A list of strings, each on a line of its own if there are several. -/
def writeStrings : List Text → Text
  | [] => "[]".toList
  | [text] => ['['] ++ writeString text ++ [']']
  | texts =>
      "[\n".toList ++
        texts.flatMap (fun text => "    ".toList ++ writeString text ++ ",\n".toList) ++
        [']']

/-- A key with its value on a line. -/
def writeField (name written : Text) : Text :=
  name ++ " = ".toList ++ written ++ ['\n']

/-- A header with the lines under it. -/
def writeTable (name : Text) (fields : List (Text × Text)) : Text :=
  ['['] ++ name ++ "]\n".toList ++
    fields.flatMap fun (name, written) => writeField name written

end LineShell.Toml
