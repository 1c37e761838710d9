import LineShell.Token.Scan

namespace LineShell

/-! What stands at the front of a line.

Behind some blanks a line goes on in one of five ways. `front` tells them apart,
and for each of them one lemma says which tokens there are.
-/

/-- Some blanks, perhaps none. -/
structure Blanks where
  text : Text
  blank : ∀ c ∈ text, Text.isBlank c = true

/-- Blanks that keep two words apart. -/
structure Gap extends Blanks where
  nonempty : text ≠ []

namespace Token

/-- Nothing of a word stands at the front of the text. -/
def EndsWord (rest : Text) : Prop := ∀ c ∈ rest.head?, endsWord c = true

theorem EndsWord.nil : EndsWord [] := by simp [EndsWord]

theorem EndsWord.gap (gap : Gap) (rest : Text) : EndsWord (gap.text ++ rest) := by
  obtain ⟨c, more, typed⟩ := List.exists_cons_of_ne_nil gap.nonempty
  have blank := gap.blank c (by simp [typed])
  simp [EndsWord, typed, endsWord, blank]

theorem EndsWord.operator (operator : Operator) (rest : Text) :
    EndsWord (operator.text ++ rest) := by
  cases operator <;> simp [EndsWord, Operator.text, endsWord, isOperatorChar]

theorem EndsWord.blanks (blanks : Blanks) {rest : Text} (ends : EndsWord rest) :
    EndsWord (blanks.text ++ rest) := by
  by_cases empty : blanks.text = []
  · simpa [empty] using ends
  · exact .gap ⟨blanks, empty⟩ rest

inductive Front : Text → Prop where
  | nothing (blanks : Blanks) : Front blanks.text
  | comment (blanks : Blanks) (rest : Text) : Front (blanks.text ++ '#' :: rest)
  | operator (blanks : Blanks) (operator : Operator) (rest : Text) :
      Front (blanks.text ++ (operator.text ++ rest))
  | broken (blanks : Blanks) (c : Char) (rest : Text) (half : c = '&' ∨ c = '|')
      (lone : rest.head? ≠ some c) : Front (blanks.text ++ c :: rest)
  | word (blanks : Blanks) (c : Char) (rest : Text) (starts : endsWord c = false)
      (uncommented : c ≠ '#') : Front (blanks.text ++ c :: rest)

theorem Front.blank {c : Char} {text : Text} (blank : Text.isBlank c = true)
    (front : Front text) : Front (c :: text) := by
  have more (blanks : Blanks) : ∀ d ∈ c :: blanks.text, Text.isBlank d = true := by
    simpa [blank] using blanks.blank
  cases front with
  | nothing blanks => exact .nothing ⟨c :: blanks.text, more blanks⟩
  | comment blanks rest => exact .comment ⟨c :: blanks.text, more blanks⟩ rest
  | operator blanks operator rest =>
      exact .operator ⟨c :: blanks.text, more blanks⟩ operator rest
  | broken blanks d rest half lone =>
      exact .broken ⟨c :: blanks.text, more blanks⟩ d rest half lone
  | word blanks d rest starts uncommented =>
      exact .word ⟨c :: blanks.text, more blanks⟩ d rest starts uncommented

theorem front (text : Text) : Front text := by
  let no : Blanks := ⟨[], by simp⟩
  induction text with
  | nil => exact .nothing no
  | cons c rest ih =>
      by_cases blank : Text.isBlank c = true
      · exact ih.blank blank
      by_cases comment : c = '#'
      · exact comment ▸ .comment no rest
      by_cases sequence : c = ';'
      · exact sequence ▸ .operator no .sequence rest
      by_cases half : c = '&' ∨ c = '|'
      · by_cases lone : rest.head? ≠ some c
        · exact .broken no c rest half lone
        · obtain ⟨rest, rfl⟩ : ∃ behind, rest = c :: behind := by
            cases rest <;> simp_all
          rcases half with rfl | rfl
          · exact .operator no .and rest
          · exact .operator no .or rest
      · refine .word no c rest ?_ comment
        simp only [not_or] at half
        simp [endsWord, isOperatorChar, blank, sequence, half]

@[simp] theorem isComplete_toToken (word : Word) (start : Nat) :
    (word.toToken start).isComplete = word.stillOpen.isNone := by
  simp [isComplete, isWord, Word.toToken]

@[simp] theorem isComplete_ofOperator (kind : TokenKind) (raw : Text) (start : Nat) :
    (ofOperator kind raw start).isComplete = decide (kind = .word) :=
  Bool.and_true _

variable {start : Nat} {rest : Text}

theorem scanFrom_nil : scanFrom start [] = [] := by
  rw [scanFrom.eq_def]

/-- What is read depends on the next character. -/
theorem scanFrom_cons (c : Char) :
    scanFrom start (c :: rest) =
      if Text.isBlank c then scanFrom (start + c.utf8Size) rest
      else if c = '#' then []
      else if isOperatorChar c then
        let token := ofOperator (operatorAt c rest).1 (operatorAt c rest).2.1 start
        token :: scanFrom token.span.stop (operatorAt c rest).2.2
      else
        let token := (Word.read none (c :: rest)).toToken start
        token :: scanFrom token.span.stop (Word.read none (c :: rest)).rest := by
  rw [scanFrom.eq_def]

theorem scanFrom_blanks (blanks : Blanks) :
    scanFrom start (blanks.text ++ rest) =
      scanFrom (start + blanks.text.byteSize) rest := by
  obtain ⟨text, blank⟩ := blanks
  induction text generalizing start with
  | nil => rfl
  | cons c text ih =>
      rw [List.cons_append, scanFrom_cons, if_pos (blank c (by simp)),
        ih fun d member => blank d (.tail _ member), Text.byteSize_cons, Nat.add_assoc]

theorem scanFrom_nothing (blanks : Blanks) : scanFrom start blanks.text = [] := by
  have whole : scanFrom start (blanks.text ++ []) = scanFrom _ [] := scanFrom_blanks blanks
  rwa [List.append_nil, scanFrom_nil] at whole

theorem scanFrom_comment : scanFrom start ('#' :: rest) = [] := by
  simp [scanFrom_cons, Text.isBlank]

theorem scanFrom_operator (operator : Operator) :
    scanFrom start (operator.text ++ rest) =
      ofOperator (.operator operator) operator.text start ::
        scanFrom (start + operator.text.byteSize) rest := by
  cases operator <;>
    simp [Operator.text, scanFrom_cons, operatorAt, isOperatorChar, ofOperator, Text.isBlank]

theorem scanFrom_broken {c : Char} (half : c = '&' ∨ c = '|')
    (lone : rest.head? ≠ some c) :
    scanFrom start (c :: rest) =
      ofOperator .brokenOperator [c] start :: scanFrom (start + c.utf8Size) rest := by
  have found : operatorAt c rest = (.brokenOperator, [c], rest) := by
    cases rest with
    | nil => rcases half with rfl | rfl <;> rfl
    | cons next rest =>
        have different : next ≠ c := by simpa using lone
        rcases half with rfl | rfl <;> simp [operatorAt, different]
  have unblank : Text.isBlank c = false := by rcases half with rfl | rfl <;> decide
  have uncommented : c ≠ '#' := by rcases half with rfl | rfl <;> decide
  have operator : isOperatorChar c = true := by rcases half with rfl | rfl <;> decide
  rw [scanFrom_cons]
  simp [found, unblank, uncommented, operator, ofOperator]

theorem scanFrom_word {c : Char} (starts : endsWord c = false)
    (uncommented : c ≠ '#') :
    scanFrom start (c :: rest) =
      (Word.read none (c :: rest)).toToken start ::
        scanFrom (start + (Word.read none (c :: rest)).raw.byteSize)
          (Word.read none (c :: rest)).rest := by
  obtain ⟨unblank, plain⟩ : Text.isBlank c = false ∧ isOperatorChar c = false := by
    simpa [endsWord] using starts
  rw [scanFrom_cons]
  simp [unblank, plain, uncommented, Word.toToken]

theorem scan_word {c : Char} (starts : endsWord c = false) (uncommented : c ≠ '#')
    (alone : (Word.read none (c :: rest)).rest = []) :
    scan (c :: rest) = [(Word.read none (c :: rest)).toToken 0] := by
  rw [scan, scanFrom_word starts uncommented, alone, scanFrom_nil]

end Token

end LineShell
