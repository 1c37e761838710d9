import LineShell.Text.Basic

namespace LineShell

/-! Words quoted for a shell.

A word is cut into chunks from the left. A chunk goes on for as long as some
single style of quoting suits all of its characters, and is then written in the
plainest style that does. A caret can stand only in single quotes, so a chunk
that begins with one is single-quoted. The null character cannot be written at
all.
-/

namespace ShellQuoted

/-- The ways to write a chunk, the plainest first. -/
inductive Style where
  | bare
  | single
  | double
deriving DecidableEq, Repr

/-- A character that is nothing special to a shell. -/
def isPlain (c : Char) : Bool :=
  c.isAlphanum || c ∈ ['+', '-', '.', '/', ':', '@', ']', '_']

/-- The style can hold the character. -/
def Style.admits : Style → Char → Bool
  | .bare, c => isPlain c
  | .single, c => !(c ∈ ['\'', '^', '\\'])
  | .double, c => !(c ∈ ['\x60', '$', '!', '^'])

/-- A chunk, the styles that suit it, and what follows it. -/
structure Chunk where
  styles : List Style
  text : Text
  rest : Text

/-- Extends a chunk for as long as a style is left. -/
def extend (styles : List Style) : Text → Chunk
  | [] => ⟨styles, [], []⟩
  | c :: rest =>
      match styles.filter (·.admits c) with
      | [] => ⟨styles, [], c :: rest⟩
      | style :: more =>
          let chunk := extend (style :: more) rest
          { chunk with text := c :: chunk.text }

/-- The first chunk of a word that begins with `c`. The styles that do not suit
`c` itself are out from the start, and a caret leaves only single quotes. -/
def firstChunk (c : Char) (rest : Text) : Chunk :=
  let styles :=
    if c = '^' then [.single] else [.bare, .single, .double].filter (·.admits c)
  let chunk := extend styles rest
  { chunk with text := c :: chunk.text }

/-- A chunk in its plainest style. -/
def Chunk.render (chunk : Chunk) : Text :=
  match chunk.styles with
  | .bare :: _ => chunk.text
  | .double :: _ =>
      '"' :: (chunk.text.flatMap fun c =>
        if c = '"' ∨ c = '\\' then ['\\', c] else [c]) ++ ['"']
  | _ => '\'' :: chunk.text ++ ['\'']

theorem extend_append (styles : List Style) (text : Text) :
    (extend styles text).text ++ (extend styles text).rest = text := by
  induction text generalizing styles with
  | nil => rfl
  | cons c rest ih =>
      unfold extend
      split
      · rfl
      · simp [ih]

theorem extend_rest_length (styles : List Style) (text : Text) :
    (extend styles text).rest.length ≤ text.length := by
  have whole := congrArg List.length (extend_append styles text)
  simp only [List.length_append] at whole
  omega

/-- The chunks of a word, each written in its style. -/
def render : Text → Text
  | [] => []
  | c :: rest => (firstChunk c rest).render ++ render (firstChunk c rest).rest
termination_by word => word.length
decreasing_by exact Nat.lt_succ_of_le (extend_rest_length _ _)

/-- The word quoted, unless it holds a null character. -/
def quote? (word : Text) : Option Text :=
  if word = [] then some ['\'', '\'']
  else if word.any (·.toNat == 0) then none
  else some (render word)

end ShellQuoted

end LineShell
