import LineShell.Proofs.Essence
import LineShell.Proofs.History
import LineShell.Proofs.Layout

namespace LineShell

/-! Lines with other blanks.

The texts of the tokens of a line, typed again with any blanks before the first and some
blanks between them, make a line with these tokens, each in its new place. What a line
means does not depend on places, so that both lines are accepted or both are refused, for
the same defect, and do the same when they run.
-/

open Token (EndsWord Word scan scanFrom)

namespace Token

/-- The token with its text at another place. -/
def movedTo (token : Token) (start : Nat) : Token :=
  { token with span := ⟨start, start + token.raw.byteSize⟩ }

/-- The token at no place in particular. -/
def unplaced (token : Token) : Token := { token with span := ⟨0, 0⟩ }

/-- The text of a word is read as the word again, wherever a word may end. If nothing was
left behind it, nothing may follow it either. -/
theorem Word.read_raw_append {text rest : Text} (ends : EndsWord rest)
    (last : (read none text).rest = [] → rest = []) :
    read none ((read none text).raw ++ rest) = { read none text with rest } := by
  by_cases nothing : (read none text).rest = []
  · have whole := raw_append_rest none text
    rw [nothing, List.append_nil] at whole
    rw [last nothing, whole, List.append_nil, ← nothing]
  · obtain ⟨pieces, behind, typed, stopped⟩ := exists_pieces text
    have word : read none text = (read none behind).afterPieces pieces := by
      rw [typed, read_pieces]
    rcases stopped with closed | backslash | ⟨quote, inside, opening, stays⟩
    · rw [word, read_of_ends closed]
      simp only [afterPieces, stop, List.append_nil]
      rw [read_pieces, read_of_ends ends]
      simp [afterPieces, stop]
    · rw [word, backslash] at nothing
      exact absurd rfl nothing
    · obtain ⟨content, opened⟩ := exists_read_open stays
      rw [word, opening, read_opening, opened] at nothing
      exact absurd rfl nothing

namespace ReadAt

variable {start : Nat} {token : Token} {rest behind : Text}

/-- Before a blank, or at the end of a line, the text of a token is read as the token. -/
theorem scanFrom_movedTo (read : token.ReadAt start rest)
    (apart : ∀ c ∈ behind.head?, Text.isBlank c = true) (last : rest = [] → behind = [])
    (start' : Nat) :
    scanFrom start' (token.raw ++ behind) =
      token.movedTo start' :: scanFrom (token.movedTo start').span.stop behind := by
  cases read with
  | operator operator => exact scanFrom_operator operator
  | broken c rest half lone =>
      have other : behind.head? ≠ some c := by
        intro same
        have blank := apart c same
        rcases half with rfl | rfl <;> revert blank <;> decide
      exact scanFrom_broken half other
  | word c text starts uncommented =>
      have ends : EndsWord behind := by
        intro d head
        simp [endsWord, apart d head]
      have again := Word.read_raw_append ends last
      obtain ⟨more, raw⟩ := Word.exists_raw_eq_cons text starts
      have typed : ((Word.read none (c :: text)).toToken start).raw = c :: more := raw
      rw [raw, List.cons_append] at again
      rw [typed, List.cons_append, scanFrom_word starts uncommented, again]
      rfl

end ReadAt

end Token

/-- The tokens of a line with blanks of one's own choice. -/
structure Respaced where
  leading : Blanks
  first : Token
  more : List (Gap × Token)

namespace Respaced

def textBehind (more : List (Gap × Token)) : Text :=
  more.flatMap fun (gap, token) => gap.text ++ token.raw

def tokensBehind (start : Nat) : List (Gap × Token) → List Token
  | [] => []
  | (gap, token) :: more =>
      let moved := token.movedTo (start + gap.text.byteSize)
      moved :: tokensBehind moved.span.stop more

def text (respaced : Respaced) : Text :=
  respaced.leading.text ++ (respaced.first.raw ++ textBehind respaced.more)

/-- The tokens at the places where their texts stand now. -/
def tokens (respaced : Respaced) : List Token :=
  let moved := respaced.first.movedTo respaced.leading.text.byteSize
  moved :: tokensBehind moved.span.stop respaced.more

theorem textBehind_cons (gap : Gap) (token : Token) (more : List (Gap × Token)) :
    textBehind ((gap, token) :: more) = gap.text ++ (token.raw ++ textBehind more) := by
  simp [textBehind]

theorem blank_textBehind (more : List (Gap × Token)) :
    ∀ c ∈ (textBehind more).head?, Text.isBlank c = true := by
  cases more with
  | nil => simp [textBehind]
  | cons part more =>
      obtain ⟨gap, token⟩ := part
      obtain ⟨c, blanks, typed⟩ := List.exists_cons_of_ne_nil gap.nonempty
      have blank := gap.blank c (by simp [typed])
      simp [textBehind_cons, typed, blank]

variable {start : Nat} {text rest : Text} {token : Token} {more : List (Gap × Token)}

theorem scanFrom_token (read : token.ReadAt start rest)
    (onward : Layout token.span.stop rest (more.map Prod.snd)) (start' : Nat) :
    scanFrom start' (token.raw ++ textBehind more) =
      token.movedTo start' :: scanFrom (token.movedTo start').span.stop (textBehind more) := by
  apply read.scanFrom_movedTo (blank_textBehind more)
  intro nothing
  obtain rfl := List.map_eq_nil_iff.mp (onward.eq_nil nothing)
  rfl

theorem scanFrom_textBehind (layout : Layout start text (more.map Prod.snd)) (start' : Nat) :
    scanFrom start' (textBehind more) = tokensBehind start' more := by
  induction more generalizing start text start' with
  | nil => exact Token.scanFrom_nil
  | cons part more ih =>
      obtain ⟨gap, token⟩ := part
      cases layout with
      | token blanks read onward =>
          rw [textBehind_cons, Token.scanFrom_blanks, scanFrom_token read onward, ih onward]
          rfl

theorem scan_text (respaced : Respaced) {line : Text}
    (same : scan line = respaced.first :: respaced.more.map Prod.snd) :
    scan respaced.text = respaced.tokens := by
  have layout : Layout 0 line (respaced.first :: respaced.more.map Prod.snd) :=
    same ▸ layout_scan line
  cases layout with
  | token blanks read onward =>
      rw [scan, Respaced.text, Token.scanFrom_blanks, scanFrom_token read onward,
        scanFrom_textBehind onward, Nat.zero_add]
      rfl

theorem map_unplaced_tokensBehind (start : Nat) (more : List (Gap × Token)) :
    (tokensBehind start more).map Token.unplaced = (more.map Prod.snd).map Token.unplaced := by
  induction more generalizing start with
  | nil => rfl
  | cons part more ih =>
      rw [tokensBehind, List.map_cons, ih]
      rfl

theorem map_unplaced_tokens (respaced : Respaced) :
    respaced.tokens.map Token.unplaced =
      (respaced.first :: respaced.more.map Prod.snd).map Token.unplaced := by
  rw [tokens, List.map_cons, map_unplaced_tokensBehind]
  rfl

end Respaced

def Defect.unplaced : Defect → Defect
  | .unterminated quote _ => .unterminated quote ⟨0, 0⟩
  | .missingCommand operator _ => .missingCommand operator ⟨0, 0⟩
  | .dangling operator _ => .dangling operator ⟨0, 0⟩
  | .brokenOperator raw _ => .brokenOperator raw ⟨0, 0⟩

namespace Statement

def unplaced (statement : Statement) : Statement where
  command := statement.command.unplaced
  arguments := statement.arguments.map Token.unplaced
  next := statement.next

def Position.unplaced : Position → Position
  | .start => .start
  | .afterOperator operator _ => .afterOperator operator ⟨0, 0⟩
  | .within statement => .within statement.unplaced

/-- What was read, statements or a defect, at no place in particular. -/
def unplacedResult : Except Defect (List Statement) → Except Defect (List Statement)
  | .ok statements => .ok (statements.map unplaced)
  | .error defect => .error defect.unplaced

theorem Position.unplaced_addWord (position : Position) (word : Token) :
    (position.addWord word).unplaced = position.unplaced.addWord word.unplaced := by
  cases position <;> simp [addWord, unplaced, Statement.unplaced]

/-- Reading does not look at the places of the tokens. -/
theorem ofTokensAfter_unplaced (position : Position) (tokens : List Token) :
    ofTokensAfter position.unplaced (tokens.map Token.unplaced) =
      unplacedResult (ofTokensAfter position tokens) := by
  induction tokens generalizing position with
  | nil => cases position <;> rfl
  | cons token tokens ih =>
      rw [List.map_cons]
      cases kind : token.kind with
      | word =>
          cases terminated : token.terminated with
          | true =>
              have complete : token.isComplete = true := by
                simp [Token.isComplete, Token.isWord, kind, terminated]
              have complete' : token.unplaced.isComplete = true := complete
              rw [ofTokensAfter_word complete, ofTokensAfter_word complete',
                ← Position.unplaced_addWord, ih]
          | false =>
              cases position <;>
                simp [ofTokensAfter, Position.unplaced, kind, terminated, unplacedResult,
                  Defect.unplaced, Token.unplaced]
      | brokenOperator =>
          cases position <;>
            simp [ofTokensAfter, Position.unplaced, kind, unplacedResult, Defect.unplaced,
              Token.unplaced]
      | operator operator =>
          cases position with
          | start | afterOperator =>
              simp [ofTokensAfter, Position.unplaced, kind, unplacedResult, Defect.unplaced,
                Token.unplaced]
          | within statement =>
              have kind' : token.unplaced.kind = .operator operator := kind
              have onward : ofTokensAfter (.afterOperator operator token.unplaced.span) _ = _ :=
                ih (.afterOperator operator token.span)
              rw [ofTokensAfter_operator kind, Position.unplaced, ofTokensAfter_operator kind',
                onward]
              cases ofTokensAfter (.afterOperator operator token.span) tokens <;> rfl

variable {statements statements' : List Statement}

theorem essence_unplaced (statement : Statement) :
    statement.unplaced.essence = statement.essence := by
  simp [essence, unplaced, Function.comp_def, Token.unplaced, Token.essence, renderWord]

theorem map_essence_congr (same : statements.map unplaced = statements'.map unplaced) :
    statements.map essence = statements'.map essence := by
  have essences := congrArg (List.map essence) same
  simpa only [List.map_map, Function.comp_def, essence_unplaced] using essences

end Statement

open Statement (ofTokens unplacedResult)

/-- What was done for a line, apart from the log, which quotes the line. -/
structure DoneAlike (left right : Outcome × Journal) : Prop where
  calls : left.2.calls = right.2.calls
  streams : left.2.streams = right.2.streams
  exitCode : left.1.exitCode = right.1.exitCode
  kind : left.1.kind = right.1.kind

theorem Tools.runLine_of_rejected {tools : Tools} {line : Text} {defect : Defect}
    (refused : ofTokens (scan line) = .error defect) (journal : Journal) :
    tools.runLine line journal = (.rejected defect,
      journal.log .info .logging (Outcome.summary line (.rejected defect))) := by
  rw [runLine, refused]

/-- Lines that are read alike are run alike. -/
theorem Tools.runLine_congr {line line' : Text}
    (same : unplacedResult (ofTokens (scan line)) = unplacedResult (ofTokens (scan line')))
    (tools : Tools) (journal : Journal) :
    DoneAlike (tools.runLine line journal) (tools.runLine line' journal) := by
  cases read : ofTokens (scan line) with
  | ok statements =>
      cases read' : ofTokens (scan line') with
      | error defect => simp [read, read', unplacedResult] at same
      | ok statements' =>
          have same : statements.map Statement.unplaced = statements'.map Statement.unplaced := by
            simpa [read, read', unplacedResult] using same
          have executed : tools.execute statements journal = tools.execute statements' journal :=
            tools.executeAfter_congr (Statement.map_essence_congr same) 0 none journal
          rw [tools.runLine_of_accepted read, tools.runLine_of_accepted read', executed]
          exact ⟨rfl, rfl, rfl, rfl⟩
  | error defect =>
      cases read' : ofTokens (scan line') with
      | ok statements => simp [read, read', unplacedResult] at same
      | error defect' =>
          have same : defect.unplaced = defect'.unplaced := by
            simpa [read, read', unplacedResult] using same
          have lexical : defect.isLexical = defect'.isLexical := by
            cases defect <;> cases defect' <;> simp [Defect.unplaced] at same <;> rfl
          rw [runLine_of_rejected read, runLine_of_rejected read']
          exact ⟨rfl, rfl, rfl, by simp [Outcome.kind, lexical]⟩

/-- The blanks between the tokens of a line, and those before the first, do not matter as
long as there are some between any two. -/
theorem spacing_does_not_matter {line : Text} {respaced : Respaced}
    (same : scan line = respaced.first :: respaced.more.map Prod.snd) :
    scan respaced.text = respaced.tokens ∧
    unplacedResult (ofTokens (scan respaced.text)) = unplacedResult (ofTokens (scan line)) ∧
    ∀ (tools : Tools) (journal : Journal),
      DoneAlike (tools.runLine respaced.text journal) (tools.runLine line journal) := by
  have scanned := respaced.scan_text same
  have read : unplacedResult (ofTokens (scan respaced.text)) =
      unplacedResult (ofTokens (scan line)) := by
    rw [ofTokens, ofTokens, ← Statement.ofTokensAfter_unplaced, ← Statement.ofTokensAfter_unplaced,
      scanned, same, respaced.map_unplaced_tokens]
  exact ⟨scanned, read, Tools.runLine_congr read⟩

theorem backslash_at_the_end_stays_behind_other_blanks :
    scan ['a', '&', '&', 'b', '\\'] =
      [⟨.word, ['a'], ['a'], none, true, ⟨0, 1⟩⟩,
        ⟨.operator .and, ['&', '&'], ['&', '&'], none, true, ⟨1, 3⟩⟩,
        ⟨.word, ['b', '\\'], ['b', '\\'], none, true, ⟨3, 5⟩⟩] ∧
    scan ['\t', 'a', ' ', '&', '&', '\n', 'b', '\\'] =
      [⟨.word, ['a'], ['a'], none, true, ⟨1, 2⟩⟩,
        ⟨.operator .and, ['&', '&'], ['&', '&'], none, true, ⟨3, 5⟩⟩,
        ⟨.word, ['b', '\\'], ['b', '\\'], none, true, ⟨6, 8⟩⟩] := by
  let respaced : Respaced :=
    { leading := ⟨['\t'], List.forall_mem_singleton.mpr rfl⟩
      first := ⟨.word, ['a'], ['a'], none, true, ⟨0, 1⟩⟩
      more :=
        [(⟨⟨[' '], List.forall_mem_singleton.mpr rfl⟩, by simp⟩,
          ⟨.operator .and, ['&', '&'], ['&', '&'], none, true, ⟨1, 3⟩⟩),
        (⟨⟨['\n'], List.forall_mem_singleton.mpr rfl⟩, by simp⟩,
          ⟨.word, ['b', '\\'], ['b', '\\'], none, true, ⟨3, 5⟩⟩)] }
  have same : scan ['a', '&', '&', 'b', '\\'] =
      respaced.first :: respaced.more.map Prod.snd := by decide +kernel
  exact ⟨same, (spacing_does_not_matter same).1⟩

end LineShell
