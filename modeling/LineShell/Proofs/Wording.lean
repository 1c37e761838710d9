import LineShell.Outcome

namespace LineShell

/-! How defects are put into words.

There is one wording for each defect. It is what the user is told, and what the log keeps of a
line that is refused.
-/

def Operator.sign : Operator → Text
  | .and => "&&".toList
  | .or => "||".toList
  | .sequence => ";".toList

theorem Operator.sign_eq (operator : Operator) : operator.sign = operator.text := by
  cases operator <;> rfl

namespace Defect

/-- The words for a defect. Places in the line are given in decimal digits. -/
inductive Worded : Defect → Text → Prop where
  | singleQuoted (span : Span) : Worded (.unterminated (some .single) span)
      ("syntax error: unterminated ".toList ++ "single-quoted".toList ++
        " string starting at position ".toList ++ Nat.toDigits 10 span.start)
  | doubleQuoted (span : Span) : Worded (.unterminated (some .double) span)
      ("syntax error: unterminated ".toList ++ "double-quoted".toList ++
        " string starting at position ".toList ++ Nat.toDigits 10 span.start)
  | quoted (span : Span) : Worded (.unterminated none span)
      ("syntax error: unterminated ".toList ++ "quoted".toList ++
        " string starting at position ".toList ++ Nat.toDigits 10 span.start)
  | missingCommand (operator : Operator) (span : Span) : Worded (.missingCommand operator span)
      ("expected a command before `".toList ++ operator.sign ++ "` at position ".toList ++
        Nat.toDigits 10 span.start)
  | dangling (operator : Operator) (span : Span) : Worded (.dangling operator span)
      ("expected a command after `".toList ++ operator.sign ++ "` at end of line".toList)
  | brokenOperator (raw : Text) (span : Span) : Worded (.brokenOperator raw span)
      ("unrecognized operator `".toList ++ raw ++ "` at position ".toList ++
        Nat.toDigits 10 span.start)

theorem worded_message (defect : Defect) : defect.Worded defect.message := by
  cases defect with
  | unterminated quote span =>
      match quote with
      | some .single => exact .singleQuoted span
      | some .double => exact .doubleQuoted span
      | none => exact .quoted span
  | missingCommand operator span =>
      have worded := Worded.missingCommand operator span
      rwa [operator.sign_eq] at worded
  | dangling operator span =>
      have worded := Worded.dangling operator span
      rwa [operator.sign_eq] at worded
  | brokenOperator raw span => exact .brokenOperator raw span

end Defect

end LineShell
