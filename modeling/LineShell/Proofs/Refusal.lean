import LineShell.Cursor
import LineShell.Proofs.History
import LineShell.Proofs.Parsing
import LineShell.Proofs.Wording

namespace LineShell

/-! Which defect a line is refused for, and what the refusal does.

Each token can be judged by itself and the one before it. Reading goes on as long as
the tokens are sound, and the first that is not decides; only then does it matter how
the line ends. A refused line leaves nothing behind but a record in the log.
-/

namespace Cursor

/-- What is wrong with the token where the cursor stands. An operator is wrong if it is
the first token, or if the token before it is an operator too. -/
inductive Faulty (cursor : Cursor) : Defect → Prop where
  | unterminated (word : cursor.token.isWord = true) (unclosed : cursor.token.terminated = false) :
      Faulty cursor (.unterminated cursor.token.quote cursor.token.span)
  | broken (half : cursor.token.isBrokenOperator = true) :
      Faulty cursor (.brokenOperator cursor.token.raw cursor.token.span)
  | missing (operator : Operator) (kind : cursor.token.kind = .operator operator)
      (due : cursor.before.head?.all Token.isOperator = true) :
      Faulty cursor (.missingCommand operator cursor.token.span)

def Sound (cursor : Cursor) : Prop := ∀ defect, ¬ cursor.Faulty defect

theorem Sound.cases {before tokens : List Token} {token : Token}
    (sound : Sound ⟨before, token, tokens⟩) :
    token.isComplete = true ∨ ∃ operator, token.kind = .operator operator ∧
      before.head?.all Token.isOperator = false := by
  cases kind : token.kind with
  | word =>
      have word : token.isWord = true := by simp [Token.isWord, kind]
      cases terminated : token.terminated with
      | true => exact .inl (by simp [Token.isComplete, word, terminated])
      | false => exact absurd (.unterminated word terminated) (sound _)
  | brokenOperator =>
      have half : token.isBrokenOperator = true := by simp [Token.isBrokenOperator, kind]
      exact absurd (.broken half) (sound _)
  | operator operator =>
      refine .inr ⟨operator, rfl, ?_⟩
      cases due : before.head?.all Token.isOperator with
      | true => exact absurd (.missing operator kind due) (sound _)
      | false => rfl

theorem exists_front {tokens : List Token} {index : Nat} {cursor : Cursor} (before : List Token)
    (here : (allFrom before tokens)[index]? = some cursor) :
    ∃ front, tokens = front ++ cursor.token :: cursor.after ∧ front.length = index ∧
      cursor.before = front.reverse ++ before := by
  induction tokens generalizing before index with
  | nil => simp [allFrom] at here
  | cons token tokens ih =>
      cases index with
      | zero =>
          obtain rfl : ⟨before, token, tokens⟩ = cursor := by simpa [allFrom] using here
          exact ⟨[], rfl, rfl, rfl⟩
      | succ index =>
          rw [allFrom, List.getElem?_cons_succ] at here
          obtain ⟨front, rfl, rfl, nearest⟩ := ih (token :: before) here
          exact ⟨token :: front, rfl, rfl, by simp [nearest]⟩

end Cursor

namespace Statement

/-- The position fits the tokens before it, the nearest first. -/
inductive Position.Behind : List Token → Position → Prop where
  | start : Behind [] .start
  | operator {token : Token} {operator : Operator} (before : List Token)
      (kind : token.kind = .operator operator) :
      Behind (token :: before) (.afterOperator operator token.span)
  | word {token : Token} (before : List Token) (statement : Statement)
      (other : token.isOperator = false) : Behind (token :: before) (.within statement)

open Position (Behind)

variable {before tokens : List Token} {position : Position} {token : Token}

theorem Position.Behind.due_iff (behind : Behind before position) :
    before.head?.all Token.isOperator = true ↔ ∀ statement, position ≠ .within statement := by
  cases behind with
  | start => simp
  | operator before kind => simp [Token.isOperator, Token.operator?, kind]
  | word before statement other => simp [other]

theorem ofTokensAfter_of_faulty (behind : Behind before position) {defect : Defect}
    (faulty : Cursor.Faulty ⟨before, token, tokens⟩ defect) :
    ofTokensAfter position (token :: tokens) = .error defect := by
  cases faulty with
  | unterminated word unclosed =>
      have kind : token.kind = .word := Token.kind_of_isWord word
      have unclosed : token.terminated = false := unclosed
      cases position <;> simp [ofTokensAfter, kind, unclosed]
  | broken half =>
      have kind : token.kind = .brokenOperator := by simpa [Token.isBrokenOperator] using half
      cases position <;> simp [ofTokensAfter, kind]
  | missing operator kind due =>
      have kind : token.kind = .operator operator := kind
      cases position with
      | start | afterOperator => simp [ofTokensAfter, kind]
      | within statement => exact absurd rfl (behind.due_iff.mp due statement)

/-- A sound token is read, and whatever follows it is read for itself. -/
theorem exists_step (behind : Behind before position)
    (sound : Cursor.Sound ⟨before, token, tokens⟩) :
    ∃ onward add, Behind (token :: before) onward ∧ ∀ following,
      ofTokensAfter position (token :: following) = (ofTokensAfter onward following).map add := by
  rcases sound.cases with complete | ⟨operator, kind, within⟩
  · have kind := Token.kind_of_isWord (Token.isWord_of_isComplete complete)
    have other : token.isOperator = false := by simp [Token.isOperator, Token.operator?, kind]
    refine ⟨position.addWord token, id, ?_, fun following => ?_⟩
    · cases position <;> exact .word before _ other
    · rw [ofTokensAfter_word complete]
      cases ofTokensAfter (position.addWord token) following <;> rfl
  · cases position with
    | start | afterOperator => simp [behind.due_iff.mpr (by simp)] at within
    | within statement =>
        exact ⟨.afterOperator operator token.span, _, .operator before kind,
          fun _ => ofTokensAfter_operator kind⟩

theorem exists_run (behind : Behind before position) (front back : List Token)
    (sound : ∀ index < front.length, ∀ cursor,
      (Cursor.allFrom before (front ++ back))[index]? = some cursor → cursor.Sound) :
    ∃ onward add, Behind (front.reverse ++ before) onward ∧
      ofTokensAfter position (front ++ back) = (ofTokensAfter onward back).map add := by
  induction front generalizing before position with
  | nil =>
      refine ⟨position, id, behind, ?_⟩
      rw [List.nil_append]
      cases ofTokensAfter position back <;> rfl
  | cons token front ih =>
      have here : Cursor.Sound ⟨before, token, front ++ back⟩ := sound 0 (by simp) _ rfl
      obtain ⟨next, add, behind, step⟩ := exists_step behind here
      obtain ⟨onward, more, behind, run⟩ := ih behind fun index bound cursor there =>
        sound (index + 1) (by simpa using bound) cursor (by simpa [Cursor.allFrom] using there)
      refine ⟨onward, add ∘ more, by simpa using behind, ?_⟩
      rw [List.cons_append, step, run]
      cases ofTokensAfter onward back <;> rfl

theorem ofTokens_of_leftmost {index : Nat} {cursor : Cursor} {defect : Defect}
    (here : Cursor.at? tokens index = some cursor) (faulty : cursor.Faulty defect)
    (sound : ∀ earlier < index, ∀ other, Cursor.at? tokens earlier = some other → other.Sound) :
    ofTokens tokens = .error defect := by
  obtain ⟨front, rfl, rfl, nearest⟩ := Cursor.exists_front [] here
  obtain ⟨onward, add, behind, run⟩ := exists_run .start front _ sound
  rw [ofTokens, run, ofTokensAfter_of_faulty (nearest ▸ behind) faulty]
  rfl

theorem ofTokens_of_sound (sound : ∀ index cursor, Cursor.at? tokens index = some cursor →
      cursor.Sound) :
    (∀ last operator, tokens.getLast? = some last → last.kind = .operator operator →
      ofTokens tokens = .error (.dangling operator last.span)) ∧
    ((∀ last, tokens.getLast? = some last → last.isOperator = false) →
      ∃ statements, ofTokens tokens = .ok statements) := by
  obtain ⟨onward, add, behind, run⟩ := exists_run .start tokens [] fun index _ cursor here =>
    sound index cursor (by rwa [List.append_nil] at here)
  rw [List.append_nil] at behind run
  rw [← List.head?_reverse, ofTokens, run]
  generalize tokens.reverse = before at behind
  cases behind with
  | start => exact ⟨by simp, fun _ => ⟨_, rfl⟩⟩
  | @operator token operator before kind =>
      refine ⟨?_, fun other => ?_⟩
      · intro last operator' ended kind'
        obtain rfl : token = last := by simpa using ended
        obtain rfl : operator = operator' := by simpa [kind] using kind'
        rfl
      · have plain := other token rfl
        simp [Token.isOperator_of_kind kind] at plain
  | @word token before statement other =>
      refine ⟨?_, fun _ => ⟨_, rfl⟩⟩
      intro last operator ended kind
      obtain rfl : token = last := by simpa using ended
      simp [Token.isOperator_of_kind kind] at other

end Statement

/-- The log keeps the kind of the refusal, its status, the beginning of the line and the reason,
with tabs between them. -/
inductive Refused.Recorded (line : Text) : Defect → Text → Prop where
  | lexical {quote : Option Quote} {span : Span} {reason : Text}
      (worded : Defect.Worded (.unterminated quote span) reason) :
      Recorded line (.unterminated quote span)
        ("syntax-rejected".toList ++ ['\t', '2', '\t'] ++ line.take 200 ++ ['\t'] ++ reason)
  | structural {defect : Defect} {reason : Text}
      (arranged : ∀ quote span, defect ≠ .unterminated quote span)
      (worded : defect.Worded reason) :
      Recorded line defect
        ("parse-rejected".toList ++ ['\t', '2', '\t'] ++ line.take 200 ++ ['\t'] ++ reason)

/-- The line came to nothing but a refusal and its record in the log. -/
structure Refused (defect : Defect) (line : Text) (before : Journal)
    (result : Outcome × Journal) : Prop where
  error : result.1.defect? = some defect
  exitCode : result.1.exitCode = 2
  lexical : result.1.kind = .syntaxRejected ↔ ∃ quote span, defect = .unterminated quote span
  structural : result.1.kind = .parseRejected ↔ ∀ quote span, defect ≠ .unterminated quote span
  calls : result.2.calls = before.calls
  streams : result.2.streams = before.streams
  records : ∃ message, Refused.Recorded line defect message ∧
    result.2.records = before.records ++ [⟨.info, .logging, message⟩]

theorem Outcome.summary_rejected (line : Text) (defect : Defect) :
    summary line (.rejected defect) =
      (kind (.rejected defect)).name ++ ['\t', '2', '\t'] ++ line.take 200 ++ ['\t'] ++
        defect.message := by
  have status : Text.ofInt rejectedStatus.toInt = ['2'] := by decide
  simp [summary, exitCode, status, defect?, Text.join, loggedLength]

theorem Refused.recorded_summary (line : Text) (defect : Defect) :
    Recorded line defect (Outcome.summary line (.rejected defect)) := by
  have worded := defect.worded_message
  rw [Outcome.summary_rejected]
  cases defect with
  | unterminated quote span => exact .lexical worded
  | missingCommand | dangling | brokenOperator => exact .structural nofun worded

theorem Outcome.kind_of_defect?_eq_none {outcome : Outcome} (sound : outcome.defect? = none) :
    outcome.kind ≠ .syntaxRejected ∧ outcome.kind ≠ .parseRejected := by
  cases outcome with
  | completed status => by_cases zero : status = 0 <;> simp [kind, zero]
  | rejected defect => simp [defect?] at sound
  | exitRequested status => simp [kind]

open Statement

/-- The first token that is wrong decides what a line is refused for. If none is, an
operator at the end is the only reason left. Nothing happens on behalf of a refused
line, and no other line ends like one. -/
theorem leftmost_defect_refuses_the_line :
    (∀ tokens : List Token,
      (∀ index cursor defect, Cursor.at? tokens index = some cursor → cursor.Faulty defect →
        (∀ earlier < index, ∀ other, Cursor.at? tokens earlier = some other → other.Sound) →
        ofTokens tokens = .error defect) ∧
      ((∀ index cursor, Cursor.at? tokens index = some cursor → cursor.Sound) →
        (∀ last operator, tokens.getLast? = some last → last.kind = .operator operator →
          ofTokens tokens = .error (.dangling operator last.span)) ∧
        ((∀ last, tokens.getLast? = some last → last.isOperator = false) →
          ∃ statements, ofTokens tokens = .ok statements))) ∧
    ∀ (tools : Tools) (line : Text) (journal : Journal),
      (∀ defect, ofTokens (Token.scan line) = .error defect →
        Refused defect line journal (tools.runLine line journal)) ∧
      ∀ statements, ofTokens (Token.scan line) = .ok statements →
        (tools.runLine line journal).1.defect? = none ∧
        (tools.runLine line journal).1.kind ≠ .syntaxRejected ∧
        (tools.runLine line journal).1.kind ≠ .parseRejected := by
  constructor
  · intro tokens
    exact ⟨fun _ _ _ here faulty sound => ofTokens_of_leftmost here faulty sound, ofTokens_of_sound⟩
  · intro tools line journal
    constructor
    · intro defect refused
      have run : tools.runLine line journal = (.rejected defect,
          journal.log .info .logging (Outcome.summary line (.rejected defect))) := by
        rw [Tools.runLine, refused]
      rw [run]
      constructor
      case lexical | structural => cases defect <;> simp [Outcome.kind, Defect.isLexical]
      case records => exact ⟨_, Refused.recorded_summary line defect, rfl⟩
      all_goals rfl
    · intro statements accepted
      have sound : (tools.runLine line journal).1.defect? = none := by
        rw [Tools.runLine, accepted]
        exact tools.executeAfter_defect? 0 none statements journal
      exact ⟨sound, Outcome.kind_of_defect?_eq_none sound⟩

theorem operator_after_operator_decides :
    ofTokens [⟨.word, ['x'], ['x'], none, true, ⟨0, 1⟩⟩,
      ⟨.operator .and, ['&', '&'], ['&', '&'], none, true, ⟨1, 3⟩⟩,
      ⟨.operator .or, ['|', '|'], ['|', '|'], none, true, ⟨3, 5⟩⟩,
      ⟨.word, [], ['"'], some .double, false, ⟨5, 6⟩⟩] =
        .error (.missingCommand .or ⟨3, 5⟩) ∧
    Refused (.brokenOperator ['&'] ⟨2, 3⟩) ['x', ' ', '&'] (.start .unbounded)
      (Tools.runLine ⟨.ofLists [] [], .empty, .missing [] []⟩ ['x', ' ', '&']
        (.start .unbounded)) ∧
    (Tools.runLine ⟨.ofLists [] [], .empty, .missing [] []⟩ ['x', ' ', '&']
      (.start .unbounded)).2.records = [⟨.info, .logging,
        "parse-rejected\t2\tx &\tunrecognized operator `&` at position 2".toList⟩] := by
  have scanned : Token.scan ['x', ' ', '&'] =
      [⟨.word, ['x'], ['x'], none, true, ⟨0, 1⟩⟩,
        ⟨.brokenOperator, ['&'], ['&'], none, true, ⟨2, 3⟩⟩] := by decide +kernel
  have refused : ofTokens (Token.scan ['x', ' ', '&']) = .error (.brokenOperator ['&'] ⟨2, 3⟩) := by
    rw [scanned]
    rfl
  refine ⟨(leftmost_defect_refuses_the_line.1 _).1 2 _ _ rfl (.missing .or rfl rfl) ?_,
    (leftmost_defect_refuses_the_line.2 _ _ _).1 _ refused, by decide +kernel⟩
  intro earlier bound other here defect faulty
  have cases : earlier = 0 ∨ earlier = 1 := by omega
  rcases cases with rfl | rfl
  · obtain rfl := Option.some.inj here
    cases faulty with
    | unterminated word unclosed => simp at unclosed
    | broken half => simp [Token.isBrokenOperator] at half
    | missing operator kind => simp at kind
  · obtain rfl := Option.some.inj here
    cases faulty with
    | unterminated word unclosed => simp at unclosed
    | broken half => simp [Token.isBrokenOperator] at half
    | missing operator kind due => simp [Token.isOperator, Token.operator?] at due

end LineShell
