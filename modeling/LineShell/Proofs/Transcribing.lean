import LineShell.Proofs.Reading
import LineShell.Toml.Document
import LineShell.Toml.Writer

namespace LineShell.Toml

open Reader

/-! Strings that are written and read again.

A string that was written is read as it was, whichever form it was written in. On one line each
character stands for itself or is escaped. Over several lines a quote may also stand for itself,
as long as no three of them stand in a row; up to two at the end are told from the three that
close the string by their number.
-/

variable {text rest : Text} {c : Char}

theorem ne_newline_of_isVisible (visible : isVisible c = true) : c ≠ '\n' ∧ c ≠ '\r' := by
  constructor <;> rintro rfl <;> exact absurd visible (by decide)

theorem isVisible_of_not_isControl (plain : ¬ isControl c = true) (other : c ≠ '\n') :
    isVisible c = true := by
  simp only [isControl, Bool.or_eq_true, Bool.and_eq_true, decide_eq_true_eq, not_or] at plain
  by_cases tab : c = '\t'
  · simp [isVisible, tab]
  · have high : 0x20 ≤ c.toNat := Nat.le_of_not_lt fun low => plain.1 ⟨⟨low, tab⟩, other⟩
    simp only [isVisible, isBeyondAscii, Bool.or_eq_true, Bool.and_eq_true, decide_eq_true_eq]
    omega

/-- How a character may be written between double quotes. -/
inductive Writes (long : Bool) (c : Char) : Text → Prop where
  | plain (visible : isVisible c = true) (simple : c ≠ '"' ∧ c ≠ '\\') : Writes long c [c]
  | escaped {lead : Char} {code : Text} (joined : lead ≠ '\n' ∧ lead ≠ '\r' ∧ isSpace lead = false)
      (reads : ∀ rest, escape.Reads (lead :: (code ++ rest)) c rest) :
      Writes long c ('\\' :: lead :: code)
  | newline (several : long = true) (same : c = '\n') : Writes long c ['\n']

/-- The four digits that stand for a code. -/
def codeDigits (code : Nat) : Text :=
  ['0', '0'] ++ [code / 16, code % 16].map fun digit => (Nat.digitChar digit).toUpper

theorem value_codeDigits : ∀ code < 128, (codeDigits code).all isHexDigit = true ∧
    (codeDigits code).foldl (fun code c => code * 16 + hexDigitValue c) 0 = code := by
  decide

theorem reads_codeDigits (control : isControl c = true) (rest : Text) :
    (codePoint 4).Reads (codeDigits c.toNat ++ rest) c rest := by
  have low : c.toNat < 128 := by
    simp only [isControl, Bool.or_eq_true, Bool.and_eq_true, decide_eq_true_eq] at control
    omega
  obtain ⟨digits, value⟩ := value_codeDigits c.toNat low
  have four : (codeDigits c.toNat).length = 4 := rfl
  have valid : c.toNat.isValidChar := .inl (by omega)
  rw [Reads, codePoint]
  simp only [List.take_left' four, List.drop_left' four, four, digits, value, valid, and_self,
    if_true, Char.ofNat_toNat]

theorem writes_writeChar (long : Bool) (other : c ≠ '"') : Writes long c (writeChar long c) := by
  unfold writeChar
  split
  · exact .escaped (by decide) fun rest => rfl
  · exact .escaped (by decide) fun rest => rfl
  · exact .escaped (by decide) fun rest => rfl
  · exact .escaped (by decide) fun rest => rfl
  · exact .escaped (by decide) fun rest => rfl
  · split
    · next several => exact .newline several rfl
    · exact .escaped (by decide) fun rest => rfl
  · split
    · next control => exact .escaped (by decide) fun rest => reads_codeDigits control rest
    · next notTab _ _ notBackslash notNewline control =>
        exact .plain (isVisible_of_not_isControl control notNewline) ⟨other, notBackslash⟩

theorem writes_quote (long : Bool) : Writes long '"' ['\\', '"'] :=
  .escaped (by decide) fun _ => rfl

theorem Writes.ne_nil {long : Bool} {written : Text} (writes : Writes long c written) :
    written ≠ [] := by
  cases writes <;> exact List.cons_ne_nil _ _

/-! On one line. -/

variable {quotes : Quotes}

def shortPiece? (quotes : Quotes) : Reader (Option Char) := do
  let c ← next
  if c = quotes.mark then return none
  else if quotes.escapes && c = '\\' then return some (← escape)
  else if isVisible c then return some c
  else failure

theorem shortString_eq (quotes : Quotes) : shortString quotes = many (shortPiece? quotes) := rfl

theorem reads_shortPiece_mark (quotes : Quotes) (rest : Text) :
    (shortPiece? quotes).Reads (quotes.mark :: rest) none rest := by
  refine (reads_next _ rest).bind ?_
  rw [if_pos rfl]
  exact .pure none rest

theorem reads_shortPiece_plain (visible : isVisible c = true) (inside : c ≠ quotes.mark)
    (simple : ¬ (quotes.escapes && c = '\\') = true) (rest : Text) :
    (shortPiece? quotes).Reads (c :: rest) (some c) rest := by
  refine (reads_next c rest).bind ?_
  rw [if_neg inside, if_neg simple, if_pos visible]
  exact .pure (some c) rest

theorem reads_shortPiece_escaped {code : Text} (reads : ∀ rest, escape.Reads (code ++ rest) c rest)
    (rest : Text) : (shortPiece? .double).Reads ('\\' :: code ++ rest) (some c) rest := by
  refine (reads_next _ _).bind ?_
  rw [if_neg (by decide), if_pos (by decide)]
  exact (reads rest).bind (.pure _ rest)

theorem Writes.reads_short {written : Text} (writes : Writes false c written) (rest : Text) :
    (shortPiece? .double).Reads (written ++ rest) (some c) rest := by
  cases writes with
  | plain visible simple =>
      exact reads_shortPiece_plain visible simple.1 (by simp [simple.2]) rest
  | escaped joined reads => exact reads_shortPiece_escaped reads rest
  | newline several => cases several

theorem writeEscaped_quote (form : StringForm) (quotes : Nat) (text : Text) :
    writeEscaped form quotes ('"' :: text) =
      if quotes = form.quotesAllowed then ['\\', '"'] ++ writeEscaped form 0 text
      else '"' :: writeEscaped form (quotes + 1) text := rfl

theorem writeEscaped_other (form : StringForm) (quotes : Nat) (other : c ≠ '"') (text : Text) :
    writeEscaped form quotes (c :: text) = writeChar form.long c ++ writeEscaped form 0 text := by
  rw [writeEscaped]
  exact other

theorem pieces_writeEscaped (text : Text) :
    Pieces (shortPiece? .double) text (writeEscaped ⟨.double, false⟩ 0 text) := by
  induction text with
  | nil => exact .nil
  | cons c text ih =>
      by_cases quote : c = '"'
      · subst quote
        have writes := writes_quote false
        exact .cons writes.reads_short writes.ne_nil ih
      · have writes := writes_writeChar false quote
        rw [writeEscaped_other _ _ quote]
        exact .cons writes.reads_short writes.ne_nil ih

theorem le_longestRun (c : Char) (current : Nat) (text : Text) :
    current ≤ longestRun c current text := by
  induction text generalizing current with
  | nil => exact Nat.le_refl _
  | cons other text ih =>
      rw [longestRun]
      split
      · exact Nat.le_trans (Nat.le_succ current) (ih (current + 1))
      · exact Nat.le_max_left _ _

theorem not_mem_of_longestRun (none : longestRun c 0 text ≤ 0) : c ∉ text := by
  induction text with
  | nil => exact List.not_mem_nil
  | cons other text ih =>
      rw [longestRun] at none
      split at none
      · have some := le_longestRun c (0 + 1) text
        omega
      · next different =>
          rw [List.mem_cons, not_or]
          exact ⟨Ne.symm different, ih (by omega)⟩

/-- A text in single quotes stands for itself. -/
theorem pieces_plain (visible : ∀ c ∈ text, isVisible c = true)
    (inside : Quotes.single.mark ∉ text) :
    Pieces (shortPiece? .single) text text := by
  induction text with
  | nil => exact .nil
  | cons c text ih =>
      rw [List.mem_cons, not_or] at inside
      have first (rest : Text) : (shortPiece? .single).Reads ([c] ++ rest) (some c) rest :=
        reads_shortPiece_plain (visible c (.head _)) (Ne.symm inside.1)
          (by simp [Quotes.single]) rest
      exact .cons first (List.cons_ne_nil c [])
        (ih (fun c member => visible c (.tail _ member)) inside.2)

theorem reads_shortString {written : Text} (pieces : Pieces (shortPiece? quotes) text written)
    (rest : Text) : (shortString quotes).Reads (written ++ quotes.mark :: rest) text rest := by
  rw [shortString_eq]
  exact (pieces.turns (reads_shortPiece_mark quotes rest)).many

/-! Over several lines. -/

theorem ne_threeMarks {mark : Char} {marks : Nat} (few : marks ≤ 2) (other : c ≠ mark)
    (rest : Text) : (List.replicate marks mark ++ c :: rest).take 3 ≠ List.replicate 3 mark := by
  intro same
  have counted := congrArg (·[marks]?) same
  have third : marks < 3 := Nat.lt_succ_of_le few
  have here : (List.replicate marks mark ++ c :: rest)[marks]? = some c := by
    rw [List.getElem?_append_right (by simp)]
    simp
  simp only [List.getElem?_take, third, if_true, here] at counted
  rw [List.getElem?_replicate, if_pos third] at counted
  exact other (Option.some.inj counted)

theorem ne_threeMarks_of_ne {mark : Char} (other : c ≠ mark) (rest : Text) :
    (c :: rest).take 3 ≠ List.replicate 3 mark := ne_threeMarks (Nat.zero_le 2) other rest

theorem reads_get (text : Text) : (get : Reader Text).Reads text text text := rfl

theorem reads_longPiece_closed {text : Text} (closed : text.take 3 = List.replicate 3 quotes.mark) :
    (longPiece? quotes).Reads text none text := by
  refine (reads_get text).bind ?_
  rw [if_pos closed]
  exact .pure none text

theorem reads_longPiece_newline (other : '\n' ≠ quotes.mark) (rest : Text) :
    (longPiece? quotes).Reads ('\n' :: rest) (some ['\n']) rest := by
  refine (reads_get _).bind ?_
  rw [if_neg (ne_threeMarks_of_ne other rest)]
  refine (reads_newline? rest).bind ?_
  rw [if_pos rfl]
  exact .pure _ rest

theorem reads_longPiece_plain {rest : Text} (visible : isVisible c = true)
    (simple : ¬ (quotes.escapes && c = '\\') = true)
    (unclosed : (c :: rest).take 3 ≠ List.replicate 3 quotes.mark) :
    (longPiece? quotes).Reads (c :: rest) (some [c]) rest := by
  refine (reads_get _).bind ?_
  rw [if_neg unclosed]
  refine (reads_newline?_other fun d head => ?_).bind ?_
  · obtain rfl := Option.some.inj head
    exact ne_newline_of_isVisible visible
  rw [if_neg Bool.false_ne_true]
  refine (reads_next c rest).bind ?_
  rw [if_neg simple, if_pos visible]
  exact .pure _ rest

theorem reads_lineContinuation_other (joined : c ≠ '\n' ∧ c ≠ '\r' ∧ isSpace c = false)
    (rest : Text) : lineContinuation.Reads (c :: rest) false (c :: rest) := by
  have blanks : spaces.Reads (c :: rest) () (c :: rest) :=
    reads_spaces_none (by simpa using joined.2.2)
  have other : newline?.Reads (c :: rest) false (c :: rest) :=
    reads_newline?_other (by simpa using ⟨joined.1, joined.2.1⟩)
  have failed : newline (c :: rest) = none := other.bind_eq _
  have stays : (spaces *> newline) (c :: rest) = none := (blanks.bind_eq _).trans failed
  rw [Reads, lineContinuation, stays]

theorem reads_longPiece_escaped {code : Text}
    (joined : c ≠ '\n' ∧ c ≠ '\r' ∧ isSpace c = false) {d : Char}
    (reads : ∀ rest, escape.Reads (c :: (code ++ rest)) d rest) (rest : Text) :
    (longPiece? .double).Reads ('\\' :: c :: (code ++ rest)) (some [d]) rest := by
  refine (reads_get _).bind ?_
  rw [if_neg (ne_threeMarks_of_ne (by decide) _)]
  refine (reads_newline?_other fun d head => ?_).bind ?_
  · obtain rfl := Option.some.inj head
    decide
  rw [if_neg Bool.false_ne_true]
  refine (reads_next _ _).bind ?_
  rw [if_pos (by decide)]
  refine (reads_lineContinuation_other joined _).bind ?_
  rw [if_neg Bool.false_ne_true]
  exact (reads rest).bind (.pure _ rest)

/-- How a text may be written between three quotes, with so many quotes just before it. There
are never three of them in a row. -/
inductive Spread (quotes : Quotes) : Nat → Text → Text → Prop where
  | nil {marks : Nat} (few : marks ≤ 2) : Spread quotes marks [] []
  | mark {marks : Nat} {text written : Text} (onward : Spread quotes (marks + 1) text written) :
      Spread quotes marks (quotes.mark :: text) (quotes.mark :: written)
  | piece {marks : Nat} {c lead : Char} {code text written : Text} (few : marks ≤ 2)
      (other : lead ≠ quotes.mark) (lineEnd : lead = '\n' ∨ lead = '\r' → c = '\n')
      (reads : ∀ rest, (longPiece? quotes).Reads (lead :: (code ++ rest)) (some [c]) rest)
      (onward : Spread quotes 0 text written) :
      Spread quotes marks (c :: text) (lead :: (code ++ written))

namespace Spread

variable {marks : Nat} {written : Text}

theorem plain (few : marks ≤ 2) (other : c ≠ quotes.mark) (visible : isVisible c = true)
    (simple : ¬ (quotes.escapes && c = '\\') = true) (onward : Spread quotes 0 text written) :
    Spread quotes marks (c :: text) (c :: written) := by
  have reads (rest : Text) : (longPiece? quotes).Reads (c :: rest) (some [c]) rest :=
    reads_longPiece_plain visible simple (ne_threeMarks_of_ne other rest)
  have inLine := ne_newline_of_isVisible visible
  exact @piece _ _ _ _ [] _ _ few other (fun ends => by simp [inLine] at ends) reads onward

theorem newline (few : marks ≤ 2) (other : '\n' ≠ quotes.mark)
    (onward : Spread quotes 0 text written) :
    Spread quotes marks ('\n' :: text) ('\n' :: written) :=
  @piece _ _ _ _ [] _ _ few other (fun _ => rfl) (reads_longPiece_newline other) onward

/-- Nothing is taken for a newline behind the opening quotes. -/
theorem head_written (spread : Spread quotes marks text written) (single : '\n' ∉ text)
    (visible : isVisible quotes.mark = true) (behind : Text) :
    ∀ c ∈ (written ++ quotes.mark :: behind).head?, c ≠ '\n' ∧ c ≠ '\r' := by
  intro c head
  cases spread with
  | nil | mark =>
      obtain rfl := Option.some.inj head
      exact ne_newline_of_isVisible visible
  | piece few other lineEnd reads onward =>
      obtain rfl := Option.some.inj head
      have inLine := fun ends => single (lineEnd ends ▸ List.mem_cons_self)
      exact ⟨fun same => inLine (.inl same), fun same => inLine (.inr same)⟩

theorem exists_front (spread : Spread quotes marks text written) :
    ∃ more, marks + more ≤ 2 ∧
      (text = List.replicate more quotes.mark ∧ written = List.replicate more quotes.mark ∨
        ∃ c rest, c ≠ quotes.mark ∧ written = List.replicate more quotes.mark ++ c :: rest) := by
  induction spread with
  | nil few => exact ⟨0, few, .inl ⟨rfl, rfl⟩⟩
  | mark onward ih =>
      obtain ⟨more, few, front⟩ := ih
      refine ⟨more + 1, by omega, ?_⟩
      rcases front with ⟨rfl, rfl⟩ | ⟨c, rest, other, rfl⟩
      · exact .inl ⟨rfl, rfl⟩
      · exact .inr ⟨c, rest, other, rfl⟩
  | piece few other lineEnd reads onward => exact ⟨0, few, .inr ⟨_, _, other, rfl⟩⟩

/-- The string is read up to the quotes at its end. -/
theorem exists_turns (spread : Spread quotes marks text written)
    (visible : isVisible quotes.mark = true)
    (simple : ¬ (quotes.escapes && quotes.mark = '\\') = true) (rest : Text) :
    ∃ pieces more, more ≤ 2 ∧ text = pieces.flatten ++ List.replicate more quotes.mark ∧
      Turns (longPiece? quotes) (written ++ (List.replicate 3 quotes.mark ++ rest)) pieces
        (List.replicate (more + 3) quotes.mark ++ rest) := by
  have closed (more : Nat) :
      Turns (longPiece? quotes) (List.replicate (more + 3) quotes.mark ++ rest) []
        (List.replicate (more + 3) quotes.mark ++ rest) := by
    refine .stop (reads_longPiece_closed ?_)
    rw [List.take_append_of_le_length (by simp), List.take_replicate,
      Nat.min_eq_left (Nat.le_add_left 3 more)]
  induction spread with
  | nil few => exact ⟨[], 0, Nat.zero_le 2, rfl, closed 0⟩
  | @mark marks text written onward ih =>
      obtain ⟨more, few, front⟩ := (Spread.mark onward).exists_front
      rcases front with ⟨text_eq, written_eq⟩ | ⟨c, behind, other, written_eq⟩
      · refine ⟨[], more, by omega, text_eq, ?_⟩
        rw [written_eq, ← List.append_assoc, List.replicate_append_replicate]
        exact closed more
      · obtain ⟨pieces, more', few', rfl, turns⟩ := ih
        have unclosed := ne_threeMarks (by omega : more ≤ 2) other
          (behind ++ (List.replicate 3 quotes.mark ++ rest))
        rw [← List.cons_append, ← List.append_assoc, ← written_eq] at unclosed
        refine ⟨[quotes.mark] :: pieces, more', few', rfl, ?_⟩
        exact .more (reads_longPiece_plain visible simple unclosed) (Nat.lt_succ_self _) turns
  | @piece marks c lead code text written few other lineEnd reads onward ih =>
      obtain ⟨pieces, more, few', rfl, turns⟩ := ih
      refine ⟨[c] :: pieces, more, few', rfl, ?_⟩
      rw [List.cons_append, List.append_assoc]
      refine .more (reads _) ?_ turns
      simp only [List.length_cons, List.length_append]
      omega

end Spread

theorem Writes.spread {marks : Nat} {piece written : Text} (writes : Writes true c piece)
    (few : marks ≤ 2) (onward : Spread .double 0 text written) :
    Spread .double marks (c :: text) (piece ++ written) := by
  cases writes with
  | plain visible simple =>
      exact .plain few simple.1 visible (by simp [simple.2]) onward
  | escaped joined reads =>
      exact .piece few (by decide) (by simp) (reads_longPiece_escaped joined reads) onward
  | newline several same =>
      subst same
      exact .newline few (by decide) onward

theorem spread_writeEscaped {marks : Nat} (few : marks ≤ 2) (text : Text) :
    Spread .double marks text (writeEscaped ⟨.double, true⟩ marks text) := by
  induction text generalizing marks with
  | nil => exact .nil few
  | cons c text ih =>
      by_cases quote : c = '"'
      · subst quote
        rw [writeEscaped_quote]
        by_cases third : marks = StringForm.quotesAllowed ⟨.double, true⟩
        · rw [if_pos third]
          exact (writes_quote true).spread few (ih (Nat.zero_le 2))
        · rw [if_neg third]
          have fewer : marks + 1 ≤ 2 := Nat.lt_of_le_of_ne few third
          exact .mark (ih fewer)
      · rw [writeEscaped_other _ _ quote]
        exact (writes_writeChar true quote).spread few (ih (Nat.zero_le 2))

/-- A text in single quotes stands for itself. -/
theorem spread_plain {marks : Nat} (plain : ∀ c ∈ text, ¬ isControl c = true)
    (few : longestRun Quotes.single.mark marks text ≤ 2) : Spread .single marks text text := by
  induction text generalizing marks with
  | nil => exact .nil few
  | cons c text ih =>
      have plain' : ∀ c ∈ text, ¬ isControl c = true := fun c member => plain c (.tail _ member)
      rw [longestRun] at few
      split at few
      · next same =>
          subst same
          exact .mark (ih plain' few)
      · next other =>
          have few' : marks ≤ 2 := Nat.le_trans (Nat.le_max_left _ _) few
          have onward := ih plain' (Nat.le_trans (Nat.le_max_right _ _) few)
          by_cases newline : c = '\n'
          · subst newline
            exact .newline few' other onward
          · have visible := isVisible_of_not_isControl (plain c (.head _)) newline
            exact .plain few' other visible (by simp [Quotes.single]) onward

theorem reads_longString (opening : Text) {written : Text} {skipped : Bool}
    (spread : Spread quotes 0 text written) (visible : isVisible quotes.mark = true)
    (simple : ¬ (quotes.escapes && quotes.mark = '\\') = true)
    (ends : rest.head? ≠ some quotes.mark)
    (opens :
      let behind := written ++ (List.replicate 3 quotes.mark ++ rest)
      newline?.Reads (opening ++ behind) skipped behind) :
    (longString quotes).Reads (opening ++ (written ++ (List.replicate 3 quotes.mark ++ rest)))
      text rest := by
  obtain ⟨pieces, more, few, rfl, turns⟩ := spread.exists_turns visible simple rest
  have same : more + 3 - 3 = more := Nat.add_sub_cancel _ _
  refine opens.bind (turns.many.bind ((reads_count (by omega) ends).bind ?_))
  rw [same]
  exact .pure _ rest

/-! In the form for it. -/

theorem head_pieces (pieces : Pieces (shortPiece? quotes) text written) :
    written.head? ≠ some quotes.mark := by
  intro head
  cases pieces with
  | nil => cases head
  | @cons piece written c text first something others =>
      obtain ⟨lead, piece, rfl⟩ := List.exists_cons_of_ne_nil something
      obtain rfl := Option.some.inj head
      have read := first []
      rw [List.append_nil] at read
      cases read.symm.trans (reads_shortPiece_mark quotes piece)

theorem reads_quotedString_short {written : Text}
    (pieces : Pieces (shortPiece? quotes) text written)
    (ends : rest.head? ≠ some quotes.mark) :
    (quotedString quotes).Reads (quotes.mark :: (written ++ quotes.mark :: rest)) text rest := by
  have other :
      ¬ List.replicate 3 quotes.mark <+: quotes.mark :: (written ++ quotes.mark :: rest) := by
    rintro ⟨behind, opened⟩
    have head := head_pieces pieces
    cases written with
    | nil =>
        obtain ⟨-, rfl⟩ := List.cons.inj (List.cons.inj opened).2
        exact ends rfl
    | cons c written =>
        obtain rfl := (List.cons.inj (List.cons.inj opened).2).1
        exact head rfl
  exact (reads_taken_other other).bind
    ((reads_char quotes.mark _).bind (reads_shortString pieces rest))

theorem reads_quotedString_long (opening : Text) {written : Text} {skipped : Bool}
    (spread : Spread quotes 0 text written) (visible : isVisible quotes.mark = true)
    (simple : ¬ (quotes.escapes && quotes.mark = '\\') = true)
    (ends : rest.head? ≠ some quotes.mark)
    (opens :
      let behind := written ++ (List.replicate 3 quotes.mark ++ rest)
      newline?.Reads (opening ++ behind) skipped behind) :
    (quotedString quotes).Reads (List.replicate 3 quotes.mark ++
      (opening ++ (written ++ (List.replicate 3 quotes.mark ++ rest)))) text rest :=
  (reads_taken _ _).bind (reads_longString opening spread visible simple ends opens)

namespace StringForm

variable {form : StringForm}

/-- What stands for a string between the quotes of the form. -/
def body (form : StringForm) (text : Text) : Text :=
  if form.quotes.escapes then writeEscaped form 0 text else text

/-- A string in the form, with its quotes. -/
def write (form : StringForm) (text : Text) : Text :=
  let marks := List.replicate (if form.long then 3 else 1) form.quotes.mark
  marks ++ (if form.long && text.contains '\n' then ['\n'] else []) ++ form.body text ++ marks

/-- Double quotes hold every text, and single ones those that are as they stand. -/
def Holds (form : StringForm) (text : Text) : Prop :=
  form.quotes = .double ∨ form.quotes = .single ∧ form.fits text = true

theorem holds_preferred (text : Text) : (preferred text).Holds text := by
  unfold preferred
  cases found : all.find? (·.fits text) with
  | none => exact .inl rfl
  | some form =>
      have fits : form.fits text = true := by simpa using List.find?_some found
      have member := List.mem_of_find?_eq_some found
      simp only [all, List.mem_cons, List.not_mem_nil, or_false] at member
      rcases member with rfl | rfl | rfl | rfl
      · exact .inl rfl
      · exact .inr ⟨rfl, fits⟩
      · exact .inl rfl
      · exact .inr ⟨rfl, fits⟩

theorem plain_of_fits (fits : form.fits text = true) : ∀ c ∈ text, ¬ isControl c = true := by
  simp only [StringForm.fits, Bool.and_eq_true, Bool.not_eq_true', List.any_eq_false] at fits
  exact fits.1.1.1

theorem single_of_fits (fits : form.fits text = true) (short : form.long = false) :
    '\n' ∉ text := by
  simp only [StringForm.fits, Bool.and_eq_true, short, Bool.false_or, Bool.not_eq_true',
    List.contains_eq_mem, decide_eq_false_iff_not] at fits
  exact fits.1.1.2

theorem longestRun_of_fits (fits : form.fits text = true) :
    longestRun form.quotes.mark 0 text ≤ form.quotesAllowed := by
  simp only [StringForm.fits, Bool.and_eq_true, decide_eq_true_eq] at fits
  exact fits.2

theorem pieces_body (holds : form.Holds text) (short : form.long = false) :
    Pieces (shortPiece? form.quotes) text (form.body text) := by
  obtain ⟨quotes, long⟩ := form
  obtain rfl : long = false := short
  rcases holds with rfl | ⟨rfl, fits⟩
  · exact pieces_writeEscaped text
  · have visible : ∀ c ∈ text, isVisible c = true := by
      intro c member
      refine isVisible_of_not_isControl (plain_of_fits fits c member) ?_
      rintro rfl
      exact single_of_fits fits rfl member
    exact pieces_plain visible (not_mem_of_longestRun (longestRun_of_fits fits))

theorem spread_body (holds : form.Holds text) (long : form.long = true) :
    Spread form.quotes 0 text (form.body text) := by
  obtain ⟨quotes, _⟩ := form
  obtain rfl := long
  rcases holds with rfl | ⟨rfl, fits⟩
  · exact spread_writeEscaped (Nat.zero_le 2) text
  · exact spread_plain (plain_of_fits fits) (longestRun_of_fits fits)

theorem mark_of_holds (holds : form.Holds text) : isVisible form.quotes.mark = true ∧
    ¬ (form.quotes.escapes && form.quotes.mark = '\\') = true := by
  rcases holds with same | ⟨same, -⟩ <;> rw [same] <;> decide

theorem reads_write (holds : form.Holds text) (ends : rest.head? ≠ some form.quotes.mark) :
    (quotedString form.quotes).Reads (form.write text ++ rest) text rest := by
  cases long : form.long with
  | false =>
      have read := reads_quotedString_short (pieces_body holds long) ends
      simpa [write, long] using read
  | true =>
      obtain ⟨visible, simple⟩ := mark_of_holds holds
      have spread := spread_body holds long
      by_cases several : '\n' ∈ text
      · have read := reads_quotedString_long ['\n'] spread visible simple ends (reads_newline? _)
        simpa [write, long, several] using read
      · have opens := reads_newline?_other
          (spread.head_written several visible (List.replicate 2 form.quotes.mark ++ rest))
        have read := reads_quotedString_long [] spread visible simple ends opens
        simpa [write, long, several] using read

end StringForm

/-- A string is told by the quote that it begins with. -/
theorem reads_value_string (quotes : Quotes) (usual : quotes = .double ∨ quotes = .single)
    (depth : Nat) {behind : Text}
    (read : (quotedString quotes).Reads (quotes.mark :: behind) text rest) :
    (value depth).Reads (quotes.mark :: behind) (.string text) rest := by
  unfold value
  refine (reads_peek _).bind ?_
  rcases usual with rfl | rfl
  · exact read.bind (.pure _ _)
  · exact read.bind (.pure _ _)

/-- What is written for a string begins with a quote. -/
theorem exists_writeString (text : Text) :
    ∃ behind, writeString text = (StringForm.preferred text).quotes.mark :: behind := by
  have begins (form : StringForm) : ∃ behind, form.write text = form.quotes.mark :: behind := by
    cases long : form.long <;> simp [StringForm.write, long, List.replicate_succ]
  exact begins (StringForm.preferred text)

/-- A string is read as what was written, if no quote follows it. -/
theorem reads_writeString (text : Text) (ends : ∀ c ∈ rest.head?, c ≠ '"' ∧ c ≠ '\'')
    (depth : Nat) :
    (value depth).Reads (writeString text ++ rest) (.string text) rest := by
  have holds := StringForm.holds_preferred text
  have usual : (StringForm.preferred text).quotes = .double ∨
      (StringForm.preferred text).quotes = .single := holds.imp_right And.left
  have ends' : rest.head? ≠ some (StringForm.preferred text).quotes.mark := by
    intro head
    obtain ⟨double, single⟩ := ends _ head
    rcases usual with same | same <;> rw [same] at double single <;> contradiction
  have read : (quotedString (StringForm.preferred text).quotes).Reads (writeString text ++ rest)
      text rest := StringForm.reads_write holds ends'
  obtain ⟨behind, written⟩ := exists_writeString text
  rw [written] at read ⊢
  exact reads_value_string _ usual depth read

end LineShell.Toml
