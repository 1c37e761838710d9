import LineShell.Text.Basic

namespace LineShell

/-! The operators between the statements of a line. -/

inductive Operator where
  /-- `&&`: the next one runs if the one before succeeded. -/
  | and
  /-- `||`: the next one runs if the one before failed. -/
  | or
  /-- `;`: the next one runs. -/
  | sequence
deriving DecidableEq, Repr

namespace Operator

def text : Operator → Text
  | .and => ['&', '&']
  | .or => ['|', '|']
  | .sequence => [';']

/-- Whether the statement after the operator runs, given how the one before it
ended. -/
def opens : Operator → Bool → Bool
  | .and, succeeded => succeeded
  | .or, succeeded => !succeeded
  | .sequence, _ => true

end Operator

end LineShell
