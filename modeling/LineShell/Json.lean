import LineShell.Text.Basic

namespace LineShell

/-! JSON over several lines, two spaces deeper for each level.

Values are written outside in: a function that writes a value takes the depth at
which it stands, and is given functions for the values within.
-/

namespace Json

/-- A character within quotes. -/
def quotedChar (c : Char) : Text :=
  match c with
  | '"' => ['\\', '"']
  | '\\' => ['\\', '\\']
  | '\x08' => ['\\', 'b']
  | '\x0c' => ['\\', 'f']
  | '\n' => ['\\', 'n']
  | '\r' => ['\\', 'r']
  | '\t' => ['\\', 't']
  | c =>
      if c.toNat < 0x20 then
        ['\\', 'u', '0', '0', Nat.digitChar (c.toNat / 16),
          Nat.digitChar (c.toNat % 16)]
      else [c]

/-- A value, given the depth at which it stands. -/
abbrev Value := Nat → Text

def string (text : Text) : Value := fun _ =>
  ['"'] ++ text.flatMap quotedChar ++ ['"']

def number (value : Nat) : Value := fun _ => Text.ofNat value

def boolean (value : Bool) : Value := fun _ =>
  if value then "true".toList else "false".toList

/-- Items between brackets, each on a line of its own. -/
def enclose (opening closing : Char) (items : List Value) : Value := fun depth =>
  let lineAt (depth : Nat) : Text := '\n' :: List.replicate (2 * depth) ' '
  if items.isEmpty then [opening, closing]
  else
    [opening] ++
      Text.join [','] (items.map fun item => lineAt (depth + 1) ++ item (depth + 1)) ++
      lineAt depth ++ [closing]

def array (values : List Value) : Value := enclose '[' ']' values

def object (fields : List (Text × Value)) : Value :=
  enclose '\x7b' '\x7d' (fields.map fun (name, value) depth =>
    string name depth ++ [':', ' '] ++ value depth)

end Json

end LineShell
