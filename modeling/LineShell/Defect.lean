import LineShell.Token

namespace LineShell

/-! Why a line is refused.

A defect of a single token, which is a word whose quotes never close, is told
apart from a defect in the arrangement of sound tokens.
-/

inductive Defect where
  /-- The quotes of a word are open at the end of the line. -/
  | unterminated (quote : Option Quote) (span : Span)
  /-- An operator stands where a command was expected. -/
  | missingCommand (operator : Operator) (span : Span)
  /-- The line ends with an operator. -/
  | dangling (operator : Operator) (span : Span)
  /-- A lone `&` or `|`. -/
  | brokenOperator (raw : Text) (span : Span)
deriving DecidableEq, Repr

namespace Defect

def isLexical : Defect → Bool
  | .unterminated _ _ => true
  | _ => false

def span : Defect → Span
  | .unterminated _ span => span
  | .missingCommand _ span => span
  | .dangling _ span => span
  | .brokenOperator _ span => span

/-- How quotes of a style are called. -/
def quoteName : Option Quote → Text
  | some .single => "single-quoted".toList
  | some .double => "double-quoted".toList
  | none => "quoted".toList

def message : Defect → Text
  | .unterminated quote span =>
      "syntax error: unterminated ".toList ++ quoteName quote ++
        " string starting at position ".toList ++ Text.ofNat span.start
  | .missingCommand operator span =>
      "expected a command before `".toList ++ operator.text ++
        "` at position ".toList ++ Text.ofNat span.start
  | .dangling operator _ =>
      "expected a command after `".toList ++ operator.text ++
        "` at end of line".toList
  | .brokenOperator raw span =>
      "unrecognized operator `".toList ++ raw ++
        "` at position ".toList ++ Text.ofNat span.start

/-- The surroundings of the defect in its line, with carets under it. -/
def snippet (defect : Defect) (line : Text) (context : Nat) : Text :=
  defect.span.snippet line context

end Defect

end LineShell
