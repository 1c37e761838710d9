import LineShell.Text.Basic

namespace LineShell

/-! Places in a line.

A span is a pair of byte offsets. Nothing forces it to fit a line: `slice` is
empty when it does not, and `snippet` clamps it.
-/

/-- The bytes from `start` up to, and without, `stop`. -/
structure Span where
  start : Nat
  stop : Nat
deriving DecidableEq, Repr, Inhabited

namespace Span

def length (span : Span) : Nat := span.stop - span.start

def isEmpty (span : Span) : Bool := span.start == span.stop

/-- The spanned text, or nothing when the span does not fit the line. -/
def slice (span : Span) (line : Text) : Text :=
  (line.slice? span.start span.stop).getD []

/-- A line cut into three by a span clamped to it. -/
structure Cut where
  before : Text
  spanned : Text
  after : Text

/-- The span moves to the end of the line if it starts behind it, and ends where
it starts if it ends before. A place inside a character counts as the place
where the character begins. -/
def cut (span : Span) (line : Text) : Cut :=
  let start := min span.start line.byteSize
  let stop := max start (min span.stop line.byteSize)
  let (before, rest) := splitAt start line
  let (spanned, after) := splitAt (stop - start) rest
  ⟨before, spanned, after⟩
where
  /-- The characters within the first `count` bytes, and the others. -/
  splitAt (count : Nat) : Text → Text × Text
    | [] => ([], [])
    | c :: rest =>
        if c.utf8Size ≤ count then
          let (left, right) := splitAt (count - c.utf8Size) rest
          (c :: left, right)
        else ([], c :: rest)

/-- The part of the line around the span, with carets underneath: up to
`context` characters before the span and one more than that after it. An empty
span still gets a caret. -/
def snippet (span : Span) (line : Text) (context : Nat) : Text :=
  let cut := span.cut line
  let before := cut.before.drop (cut.before.length - context)
  before ++ cut.spanned ++ cut.after.take (context + 1) ++ ['\n'] ++
    List.replicate before.length ' ' ++
    List.replicate (max 1 cut.spanned.length) '^'

end Span

end LineShell
