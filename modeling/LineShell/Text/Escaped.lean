import LineShell.Text.Basic
import LineShell.Text.Unprintable

namespace LineShell

/-! Text between double quotes, with every character visible.

Tab, carriage return, newline, backslash, double quote and the null character
have a short escape; any other character without a glyph of its own is written
as its code point in braces. A single quote stands for itself.
-/

namespace Text

def escapedChar (c : Char) : Text :=
  if c = '\t' then ['\\', 't']
  else if c = '\r' then ['\\', 'r']
  else if c = '\n' then ['\\', 'n']
  else if c = '\\' then ['\\', '\\']
  else if c = '"' then ['\\', '"']
  else if c.toNat = 0 then ['\\', '0']
  else if 0x20 ≤ c.toNat ∧ c.toNat < 0x7F then [c]
  else if isUnprintable c then
    ['\\', 'u', '\x7b'] ++ Nat.toDigits 16 c.toNat ++ ['\x7d']
  else [c]

def escaped (text : Text) : Text := '"' :: text.flatMap escapedChar ++ ['"']

/-- Several texts in brackets. -/
def escapedList (texts : List Text) : Text :=
  '[' :: join [',', ' '] (texts.map escaped) ++ [']']

end Text

end LineShell
