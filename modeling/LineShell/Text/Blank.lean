import LineShell.Text.Basic

namespace LineShell

namespace Text

/-! White space.

A blank is a character with the Unicode property White_Space. The same class
separates words, ends a line that is complete, and is trimmed. The zero-width
characters, the byte order mark and the information separators are not in it.
-/

/-- The character has the property White_Space. -/
def isBlank (c : Char) : Bool :=
  let code := c.toNat
  (0x09 ≤ code && code ≤ 0x0D) || code == 0x20 || code == 0x85 ||
    code == 0xA0 || code == 0x1680 || (0x2000 ≤ code && code ≤ 0x200A) ||
    code == 0x2028 || code == 0x2029 || code == 0x202F || code == 0x205F ||
    code == 0x3000

def trimStart (text : Text) : Text := text.dropWhile isBlank

def trimEnd (text : Text) : Text := (text.reverse.dropWhile isBlank).reverse

def trim (text : Text) : Text := (trimStart text).trimEnd

def endsBlank (text : Text) : Bool := text.getLast?.any isBlank

end Text

end LineShell
