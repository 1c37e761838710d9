import LineShell.Text.Basic

namespace LineShell

/-! Text as bytes.

`encode` writes the UTF-8 form. Reading goes one character at a time: `next`
yields the character at the front, or says how many bytes there cannot begin a
character. Those bytes are the longest stretch that some character could have
begun with, so that `decodeLossy` puts one replacement character for each such
stretch, and `decode?` refuses the input if there is any.
-/

abbrev Bytes := List UInt8

namespace Utf8

def encode (text : Text) : Bytes := text.flatMap String.utf8EncodeChar

/-- What a first byte promises: how many bytes follow it and the range that the
next one must lie in. -/
structure Lead where
  following : Nat
  least : UInt8
  greatest : UInt8

/-- The bytes that begin a character of more than one byte. -/
def lead? (first : UInt8) : Option Lead :=
  if 0xC2 ≤ first ∧ first ≤ 0xDF then some ⟨1, 0x80, 0xBF⟩
  else if first = 0xE0 then some ⟨2, 0xA0, 0xBF⟩
  else if first = 0xED then some ⟨2, 0x80, 0x9F⟩
  else if 0xE1 ≤ first ∧ first ≤ 0xEF then some ⟨2, 0x80, 0xBF⟩
  else if first = 0xF0 then some ⟨3, 0x90, 0xBF⟩
  else if 0xF1 ≤ first ∧ first ≤ 0xF3 then some ⟨3, 0x80, 0xBF⟩
  else if first = 0xF4 then some ⟨3, 0x80, 0x8F⟩
  else none

/-- What stands at the front of a byte sequence. -/
inductive Front where
  | character (c : Char)
  | malformed

/-- Reads the bytes that a first byte promised. `code` is the number read so
far. Answers what was found and the bytes not used. -/
def tail : Nat → UInt8 → UInt8 → Nat → Bytes → Front × Bytes
  | 0, _, _, code, bytes => (.character (Char.ofNat code), bytes)
  | _ + 1, _, _, _, [] => (.malformed, [])
  | following + 1, least, greatest, code, byte :: bytes =>
      if least ≤ byte ∧ byte ≤ greatest then
        tail following 0x80 0xBF (code * 64 + (byte.toNat - 0x80)) bytes
      else (.malformed, byte :: bytes)

/-- The number that the first byte of a longer character contributes. -/
def leadBits (following : Nat) (first : UInt8) : Nat :=
  first.toNat % Nat.pow 2 (6 - following)

/-- The front of a nonempty byte sequence and the bytes after it. -/
def next (first : UInt8) (bytes : Bytes) : Front × Bytes :=
  if first < 0x80 then (.character (Char.ofNat first.toNat), bytes)
  else
    match lead? first with
    | none => (.malformed, bytes)
    | some lead =>
        tail lead.following lead.least lead.greatest
          (leadBits lead.following first) bytes

theorem tail_length (following : Nat) (least greatest : UInt8) (code : Nat)
    (bytes : Bytes) :
    (tail following least greatest code bytes).2.length ≤ bytes.length := by
  induction bytes generalizing following least greatest code with
  | nil => cases following <;> simp [tail]
  | cons byte bytes ih =>
      cases following with
      | zero => simp [tail]
      | succ following =>
          unfold tail
          split
          · exact Nat.le_succ_of_le (ih ..)
          · exact Nat.le_refl _

theorem next_length (first : UInt8) (bytes : Bytes) :
    (next first bytes).2.length ≤ bytes.length := by
  unfold next
  split
  · exact Nat.le_refl _
  · split
    · exact Nat.le_refl _
    · exact tail_length ..

/-- The fronts of a byte sequence, one after the other. -/
def fronts : Bytes → List Front
  | [] => []
  | first :: bytes => (next first bytes).1 :: fronts (next first bytes).2
termination_by bytes => bytes.length
decreasing_by exact Nat.lt_succ_of_le (next_length first bytes)

def decode? (bytes : Bytes) : Option Text :=
  (fronts bytes).mapM fun
    | .character c => some c
    | .malformed => none

/-- The text of a byte sequence, with U+FFFD for what is not UTF-8. -/
def decodeLossy (bytes : Bytes) : Text :=
  (fronts bytes).map fun
    | .character c => c
    | .malformed => '\uFFFD'

end Utf8

end LineShell
