import LineShell.Text.Blank
import LineShell.Token

namespace LineShell

/-! Reading the tokens of a line.

Blanks separate words; `&`, `|` and `;` end a word and form operators; a `#`
where a word could begin makes the rest of the line a comment. Inside a word a
backslash takes the next character as it is, single quotes take everything up
to the next single quote as it is, and in double quotes a backslash does so only
for a backslash, a double quote or a blank. Reading never fails: quotes may stay
open at the end of the line, and a lone `&` or `|` is a broken operator.
-/

namespace Token

/-- A character that ends a word because an operator begins there. -/
def isOperatorChar (c : Char) : Bool := c = '&' || c = '|' || c = ';'

/-- A character that ends a word outside quotes. -/
def endsWord (c : Char) : Bool := Text.isBlank c || isOperatorChar c

/-- A character that a backslash escapes in double quotes. -/
def isEscapable (c : Char) : Bool := c = '\\' || c = '"' || Text.isBlank c

structure Word where
  content : Text
  raw : Text
  /-- The quotes that opened first. -/
  quote : Option Quote
  /-- The quotes still open at the end. -/
  stillOpen : Option Quote
  rest : Text
deriving DecidableEq, Repr

namespace Word

/-- Nothing more is read. -/
def stop (quotes : Option Quote) (rest : Text) : Word := ⟨[], [], none, quotes, rest⟩

/-- The word with `raw` read before it, which denotes `content`. -/
def after (raw content : Text) (word : Word) : Word :=
  { word with content := content ++ word.content, raw := raw ++ word.raw }

/-- The word with quotes opened before it. -/
def afterOpening (quote : Quote) (word : Word) : Word :=
  { word with raw := quote.char :: word.raw, quote := some quote }

/-- Reads the rest of a word, inside the given quotes or outside any. -/
def read : Option Quote → Text → Word
  | quotes, [] => stop quotes []
  | none, c :: rest =>
      if c = '\\' then
        match rest with
        | [] => (stop none []).after [c] [c]
        | escaped :: rest => (read none rest).after [c, escaped] [escaped]
      else if c = Quote.single.char then
        (read (some .single) rest).afterOpening .single
      else if c = Quote.double.char then
        (read (some .double) rest).afterOpening .double
      else if endsWord c then stop none (c :: rest)
      else (read none rest).after [c] [c]
  | some .single, c :: rest =>
      if c = Quote.single.char then (read none rest).after [c] []
      else (read (some .single) rest).after [c] [c]
  | some .double, c :: rest =>
      if c = Quote.double.char then (read none rest).after [c] []
      else if c = '\\' then
        match rest with
        | [] => (stop (some .double) []).after [c] [c]
        | escaped :: rest =>
            if isEscapable escaped then
              (read (some .double) rest).after [c, escaped] [escaped]
            else (read (some .double) (escaped :: rest)).after [c] [c]
      else (read (some .double) rest).after [c] [c]

/-- Reading a word divides the text. -/
theorem raw_append_rest (quotes : Option Quote) (text : Text) :
    (read quotes text).raw ++ (read quotes text).rest = text := by
  fun_induction read quotes text <;>
    simp_all [stop, after, afterOpening, Quote.char]

theorem raw_ne_nil {c : Char} (rest : Text) (starts : endsWord c = false) :
    (read none (c :: rest)).raw ≠ [] := by
  unfold read
  simp only [starts, Bool.false_eq_true, if_false]
  repeat' split
  all_goals simp [after, afterOpening]

theorem rest_length_lt {c : Char} {rest : Text} (starts : endsWord c = false) :
    (read none (c :: rest)).rest.length < (c :: rest).length := by
  have whole := congrArg List.length (raw_append_rest none (c :: rest))
  have nonempty := List.length_pos_iff.mpr (raw_ne_nil rest starts)
  simp only [List.length_append] at whole
  omega

/-- The word as a token that begins at `start`. -/
def toToken (word : Word) (start : Nat) : Token where
  kind := .word
  content := word.content
  raw := word.raw
  quote := word.quote
  terminated := word.stillOpen.isNone
  span := ⟨start, start + word.raw.byteSize⟩

end Word

/-- An operator or the beginning of one, as a token that begins at `start`. -/
def ofOperator (kind : TokenKind) (raw : Text) (start : Nat) : Token where
  kind
  content := raw
  raw
  quote := none
  terminated := true
  span := ⟨start, start + raw.byteSize⟩

/-- The operator that begins with `c`, with its text and what follows it, given
that `rest` follows `c`. Two characters are preferred to one. -/
def operatorAt (c : Char) (rest : Text) : TokenKind × Text × Text :=
  if c = ';' then (.operator .sequence, [c], rest)
  else
    match rest with
    | [] => (.brokenOperator, [c], [])
    | next :: after =>
        if next = c then
          (.operator (if c = '&' then .and else .or), [c, next], after)
        else (.brokenOperator, [c], rest)

theorem operatorAt_rest_length (c : Char) (rest : Text) :
    (operatorAt c rest).2.2.length < (c :: rest).length := by
  unfold operatorAt
  split
  · exact Nat.lt_succ_self _
  · split
    · exact Nat.lt_succ_self _
    · split
      · exact Nat.lt_succ_of_lt (Nat.lt_succ_self _)
      · exact Nat.lt_succ_self _

/-- The tokens of a text that begins at place `start`. -/
def scanFrom (start : Nat) : Text → List Token
  | [] => []
  | c :: rest =>
      if Text.isBlank c then scanFrom (start + c.utf8Size) rest
      else if c = '#' then []
      else if isOperatorChar c then
        let token := ofOperator (operatorAt c rest).1 (operatorAt c rest).2.1 start
        token :: scanFrom token.span.stop (operatorAt c rest).2.2
      else
        let token := (Word.read none (c :: rest)).toToken start
        token :: scanFrom token.span.stop (Word.read none (c :: rest)).rest
termination_by text => text.length
decreasing_by
  · simp
  · exact operatorAt_rest_length c rest
  · exact Word.rest_length_lt (by simp_all [endsWord])

def scan (line : Text) : List Token := scanFrom 0 line

end Token

end LineShell
