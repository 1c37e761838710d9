import LineShell.Proofs.Scanning

namespace LineShell

/-! How words are spelled.

A word is spelled in pieces: a character that stands for itself, a character
behind a backslash, text between single quotes, text between double quotes.
Reading a text that begins with pieces takes them as they are meant and goes
on behind them. Whatever is not a piece stops the reading: the end of the
word, a backslash with nothing behind it, or quotes that never close.
-/

namespace Spelling

open Token (endsWord isEscapable Word)

/-- A character that stands for itself outside quotes. -/
def isBare (c : Char) : Bool :=
  !endsWord c && c != '\\' && c != Quote.single.char && c != Quote.double.char

/-- The double quote behind this text is the first one in it that no backslash
escapes. -/
def isClosed : Text → Bool
  | [] => true
  | c :: rest =>
      if c = Quote.double.char then false
      else if c = '\\' then
        match rest with
        | [] => false
        | next :: after =>
            if isEscapable next then isClosed after else isClosed (next :: after)
      else isClosed rest

/-- What the text denotes between double quotes. -/
def unescaped : Text → Text
  | [] => []
  | c :: rest =>
      if c = '\\' then
        match rest with
        | [] => [c]
        | next :: after =>
            if isEscapable next then next :: unescaped after
            else c :: unescaped (next :: after)
      else c :: unescaped rest

theorem unescaped_cons {c : Char} (unescaping : c ≠ '\\') (rest : Text) :
    unescaped (c :: rest) = c :: unescaped rest := by
  rw [unescaped.eq_def]
  simp [unescaping]

theorem unescaped_escaped {c : Char} (escapable : isEscapable c = true) (rest : Text) :
    unescaped ('\\' :: c :: rest) = c :: unescaped rest := by
  simp [unescaped, escapable]

theorem unescaped_backslash {c : Char} (literal : ¬ isEscapable c = true)
    (rest : Text) :
    unescaped ('\\' :: c :: rest) = '\\' :: unescaped (c :: rest) := by
  simp [unescaped, literal]

/-- Quotes that are opened in front of the text are not closed in it. -/
def StaysOpen : Quote → Text → Prop
  | .single, text => Quote.single.char ∉ text
  | .double, text => ∀ inside rest, text = inside ++ Quote.double.char :: rest →
      isClosed inside = false

namespace StaysOpen

variable {c : Char} {rest : Text}

theorem of_escaped (escapable : isEscapable c = true)
    (stays : StaysOpen .double ('\\' :: c :: rest)) : StaysOpen .double rest := by
  rintro inside behind rfl
  simpa [isClosed, escapable, Quote.char] using stays ('\\' :: c :: inside) behind rfl

theorem of_backslash (literal : ¬ isEscapable c = true)
    (stays : StaysOpen .double ('\\' :: c :: rest)) : StaysOpen .double (c :: rest) := by
  intro inside behind typed
  have shut := stays ('\\' :: inside) behind (by rw [typed]; rfl)
  -- The closing quote itself is escapable, so that something stands before it.
  cases inside with
  | nil =>
      obtain ⟨rfl, -⟩ := List.cons.inj typed
      exact absurd rfl literal
  | cons c inside =>
      obtain ⟨rfl, -⟩ := List.cons.inj typed
      simpa [isClosed, literal, Quote.char] using shut

theorem of_cons (notQuote : c ≠ Quote.double.char) (notBackslash : c ≠ '\\')
    (stays : StaysOpen .double (c :: rest)) : StaysOpen .double rest := by
  rintro inside behind rfl
  have shut := stays (c :: inside) behind rfl
  rw [isClosed.eq_def] at shut
  simpa [notQuote, notBackslash] using shut

end StaysOpen

inductive Piece where
  | bare (c : Char) (plain : isBare c = true)
  | escaped (c : Char)
  | single (inside : Text) (unquoted : Quote.single.char ∉ inside)
  | double (inside : Text) (closed : isClosed inside = true)

namespace Piece

def text : Piece → Text
  | .bare c _ => [c]
  | .escaped c => ['\\', c]
  | .single inside _ => Quote.single.char :: inside ++ [Quote.single.char]
  | .double inside _ => Quote.double.char :: inside ++ [Quote.double.char]

def value : Piece → Text
  | .bare c _ => [c]
  | .escaped c => [c]
  | .single inside _ => inside
  | .double inside _ => unescaped inside

def quote? : Piece → Option Quote
  | .bare _ _ => none
  | .escaped _ => none
  | .single _ _ => some .single
  | .double _ _ => some .double

end Piece

end Spelling

/-- A word in pieces. It does not begin like a comment. -/
structure Spelling where
  first : Spelling.Piece
  more : List Spelling.Piece
  uncommented : first.text ≠ ['#']

namespace Spelling

open Token (endsWord isEscapable Word)

def pieces (spelling : Spelling) : List Piece := spelling.first :: spelling.more

def text (spelling : Spelling) : Text := spelling.pieces.flatMap Piece.text

def value (spelling : Spelling) : Text := spelling.pieces.flatMap Piece.value

/-- The complete word as a token that begins at `start`. -/
def token (spelling : Spelling) (start : Nat) : Token where
  kind := .word
  content := spelling.value
  raw := spelling.text
  quote := spelling.pieces.findSome? Piece.quote?
  terminated := true
  span := ⟨start, start + spelling.text.byteSize⟩

theorem text_head (spelling : Spelling) :
    ∃ c rest, spelling.text = c :: rest ∧ endsWord c = false ∧ c ≠ '#' := by
  obtain ⟨first, more, uncommented⟩ := spelling
  simp only [text, pieces, List.flatMap_cons]
  cases first with
  | bare c plain =>
      simp only [isBare, Bool.and_eq_true, Bool.not_eq_true'] at plain
      exact ⟨c, _, rfl, plain.1.1.1, by simpa [Piece.text] using uncommented⟩
  | escaped c => exact ⟨'\\', _, rfl, by decide, by decide⟩
  | single => exact ⟨Quote.single.char, _, rfl, by decide, by decide⟩
  | double => exact ⟨Quote.double.char, _, rfl, by decide, by decide⟩

/-- Pieces make a word unless they begin like a comment. -/
theorem exists_of_pieces {pieces : List Piece} {c : Char} {rest line : Text}
    (nonempty : pieces ≠ [])
    (typed : pieces.flatMap Piece.text ++ rest = c :: line) (uncommented : c ≠ '#') :
    ∃ spelling : Spelling, spelling.pieces = pieces := by
  obtain ⟨first, more, rfl⟩ := List.exists_cons_of_ne_nil nonempty
  refine ⟨⟨first, more, fun comment => uncommented ?_⟩, rfl⟩
  rw [List.flatMap_cons, comment] at typed
  exact (List.cons.inj typed).1.symm

end Spelling

namespace Token.Word

open Spelling (Piece StaysOpen isBare isClosed unescaped)

theorem after_after (word : Word) (raw content raw' content' : Text) :
    (word.after raw content).after raw' content' =
      word.after (raw' ++ raw) (content' ++ content) := by
  simp [after]

theorem read_bare {c : Char} (plain : isBare c = true) (rest : Text) :
    read none (c :: rest) = (read none rest).after [c] [c] := by
  simp only [isBare, Bool.and_eq_true, Bool.not_eq_true', bne_iff_ne] at plain
  obtain ⟨⟨⟨inside, notBackslash⟩, notSingle⟩, notDouble⟩ := plain
  rw [read.eq_def]
  simp [inside, notBackslash, notSingle, notDouble]

theorem read_escaped (c : Char) (rest : Text) :
    read none ('\\' :: c :: rest) = (read none rest).after ['\\', c] [c] := by
  rw [read.eq_def]
  simp

theorem read_opening (quote : Quote) (rest : Text) :
    read none (quote.char :: rest) = (read (some quote) rest).afterOpening quote := by
  rw [read.eq_def]
  cases quote <;> rfl

theorem read_closing (quote : Quote) (rest : Text) :
    read (some quote) (quote.char :: rest) = (read none rest).after [quote.char] [] := by
  cases quote <;> cases rest <;> rfl

theorem read_single_cons {c : Char} (other : c ≠ Quote.single.char) (rest : Text) :
    read (some .single) (c :: rest) = (read (some .single) rest).after [c] [c] := by
  rw [read, if_neg other]

theorem read_double_cons {c : Char} (other : c ≠ Quote.double.char)
    (unescaping : c ≠ '\\') (rest : Text) :
    read (some .double) (c :: rest) = (read (some .double) rest).after [c] [c] := by
  rw [read.eq_def]
  simp [other, unescaping]

theorem read_double_escaped {c : Char} (escapable : isEscapable c = true)
    (rest : Text) :
    read (some .double) ('\\' :: c :: rest) =
      (read (some .double) rest).after ['\\', c] [c] := by
  rw [read, if_neg (by decide), if_pos rfl, if_pos escapable]

theorem read_double_backslash {c : Char} (literal : ¬ isEscapable c = true)
    (rest : Text) :
    read (some .double) ('\\' :: c :: rest) =
      (read (some .double) (c :: rest)).after ['\\'] ['\\'] := by
  rw [read, if_neg (by decide), if_pos rfl, if_neg literal]

theorem read_single {inside : Text} (unquoted : Quote.single.char ∉ inside)
    (rest : Text) :
    read (some .single) (inside ++ Quote.single.char :: rest) =
      (read none rest).after (inside ++ [Quote.single.char]) inside := by
  induction inside with
  | nil => exact read_closing .single rest
  | cons c inside ih =>
      have other : c ≠ Quote.single.char := fun same => unquoted (by simp [same])
      have unquoted : Quote.single.char ∉ inside := fun member => unquoted (.tail _ member)
      rw [List.cons_append, read_single_cons other, ih unquoted, after_after]
      rfl

theorem read_double {inside : Text} (closed : isClosed inside = true)
    (rest : Text) :
    read (some .double) (inside ++ Quote.double.char :: rest) =
      (read none rest).after (inside ++ [Quote.double.char]) (unescaped inside) := by
  fun_induction isClosed inside with
  | case1 => exact read_closing .double rest
  | case2 | case3 => contradiction
  | case4 next after escapable _ ih =>
      rw [List.cons_append, List.cons_append, read_double_escaped escapable,
        ih closed, after_after, Spelling.unescaped_escaped escapable]
      rfl
  | case5 next after literal _ ih =>
      rw [List.cons_append, List.cons_append, read_double_backslash literal,
        ← List.cons_append, ih closed, after_after,
        Spelling.unescaped_backslash literal]
      rfl
  | case6 c inside notQuote notBackslash ih =>
      rw [List.cons_append, read_double_cons notQuote notBackslash, ih closed,
        after_after, Spelling.unescaped_cons notBackslash]
      rfl

/-- The word with pieces read before it. -/
def afterPieces (pieces : List Piece) (word : Word) : Word :=
  { word with
    content := pieces.flatMap Piece.value ++ word.content
    raw := pieces.flatMap Piece.text ++ word.raw
    quote := (pieces.findSome? Piece.quote?).or word.quote }

theorem read_piece (piece : Piece) (rest : Text) :
    read none (piece.text ++ rest) = (read none rest).afterPieces [piece] := by
  cases piece with
  | bare c plain => exact read_bare plain rest
  | escaped c => exact read_escaped c rest
  | single inside unquoted =>
      have typed : (Piece.single inside unquoted).text ++ rest =
          Quote.single.char :: (inside ++ Quote.single.char :: rest) := by
        simp [Piece.text]
      rw [typed, read_opening, read_single unquoted]
      simp [afterOpening, after, afterPieces, Piece.text, Piece.value, Piece.quote?]
  | double inside closed =>
      have typed : (Piece.double inside closed).text ++ rest =
          Quote.double.char :: (inside ++ Quote.double.char :: rest) := by
        simp [Piece.text]
      rw [typed, read_opening, read_double closed]
      simp [afterOpening, after, afterPieces, Piece.text, Piece.value, Piece.quote?]

theorem read_pieces (pieces : List Piece) (rest : Text) :
    read none (pieces.flatMap Piece.text ++ rest) =
      (read none rest).afterPieces pieces := by
  induction pieces with
  | nil => simp [afterPieces]
  | cons piece pieces ih =>
      rw [List.flatMap_cons, List.append_assoc, read_piece, ih]
      cases opened : piece.quote? <;> simp [afterPieces, opened]

theorem read_single_open {text : Text} (unquoted : Quote.single.char ∉ text) :
    read (some .single) text = ⟨text, text, none, some .single, []⟩ := by
  induction text with
  | nil => rfl
  | cons c text ih =>
      have other : c ≠ Quote.single.char := fun same => unquoted (by simp [same])
      have unquoted : Quote.single.char ∉ text := fun member => unquoted (.tail _ member)
      rw [read_single_cons other, ih unquoted]
      rfl

theorem read_double_open {text : Text} (unclosed : StaysOpen .double text) :
    read (some .double) text = ⟨unescaped text, text, none, some .double, []⟩ := by
  fun_induction isClosed text with
  | case1 => rfl
  | case2 rest => exact absurd (unclosed [] rest rfl) (by decide)
  | case3 => rfl
  | case4 next rest escapable _ ih =>
      rw [read_double_escaped escapable, ih (unclosed.of_escaped escapable),
        Spelling.unescaped_escaped escapable]
      rfl
  | case5 next rest literal _ ih =>
      rw [read_double_backslash literal, ih (unclosed.of_backslash literal),
        Spelling.unescaped_backslash literal]
      rfl
  | case6 c rest notQuote notBackslash ih =>
      rw [read_double_cons notQuote notBackslash, ih (unclosed.of_cons notQuote notBackslash),
        Spelling.unescaped_cons notBackslash]
      rfl

theorem exists_read_open {quote : Quote} {text : Text} (unclosed : StaysOpen quote text) :
    ∃ content, read (some quote) text = ⟨content, text, none, some quote, []⟩ := by
  cases quote with
  | single => exact ⟨_, read_single_open unclosed⟩
  | double => exact ⟨_, read_double_open unclosed⟩

theorem read_of_ends {rest : Text} (ends : EndsWord rest) :
    read none rest = stop none rest := by
  cases rest with
  | nil => rfl
  | cons c rest =>
      have here : endsWord c = true := ends c rfl
      have plain : c ≠ '\\' ∧ c ≠ Quote.single.char ∧ c ≠ Quote.double.char := by
        refine ⟨?_, ?_, ?_⟩ <;> rintro rfl <;> revert here <;> decide
      rw [read.eq_def]
      simp [here, plain]

/-- Every text begins with pieces as far as nothing stops them: the end of the
word, a backslash with nothing behind it, or quotes that stay open. -/
theorem exists_pieces (text : Text) :
    ∃ (pieces : List Piece) (rest : Text),
      text = pieces.flatMap Piece.text ++ rest ∧
      (EndsWord rest ∨ rest = ['\\'] ∨
        ∃ quote inside, rest = quote.char :: inside ∧ StaysOpen quote inside) := by
  induction length : text.length using Nat.strongRecOn generalizing text with
  | _ length ih =>
      subst length
      -- A piece in front leaves a shorter text, which begins with pieces of its own.
      have further (piece : Piece) (more : Text) (shorter : more.length < text.length)
          (typed : text = piece.text ++ more) :
          ∃ (pieces : List Piece) (rest : Text), text = pieces.flatMap Piece.text ++ rest ∧
            (EndsWord rest ∨ rest = ['\\'] ∨
              ∃ quote inside, rest = quote.char :: inside ∧ StaysOpen quote inside) := by
        obtain ⟨pieces, rest, found, stopped⟩ := ih more.length shorter more rfl
        exact ⟨piece :: pieces, rest, by simp [typed, ← found], stopped⟩
      cases text with
      | nil => exact ⟨[], [], rfl, .inl .nil⟩
      | cons c more =>
          by_cases ends : endsWord c = true
          · exact ⟨[], c :: more, rfl, .inl (by simpa [EndsWord] using ends)⟩
          by_cases backslash : c = '\\'
          · subst backslash
            cases more with
            | nil => exact ⟨[], ['\\'], rfl, .inr (.inl rfl)⟩
            | cons next more =>
                have shorter : more.length < ('\\' :: next :: more).length := by
                  simp only [List.length_cons]
                  omega
                exact further (.escaped next) more shorter rfl
          by_cases single : c = Quote.single.char
          · subst single
            by_cases closing : Quote.single.char ∈ more
            · obtain ⟨inside, more, rfl, unquoted⟩ := List.eq_append_cons_of_mem closing
              exact further (.single inside unquoted) more (by simp; omega)
                (by simp [Piece.text])
            · exact ⟨[], _, rfl, .inr (.inr ⟨.single, more, rfl, closing⟩)⟩
          by_cases double : c = Quote.double.char
          · subst double
            by_cases unclosed : StaysOpen .double more
            · exact ⟨[], _, rfl, .inr (.inr ⟨.double, more, rfl, unclosed⟩)⟩
            · obtain ⟨inside, more, rfl, closed⟩ : ∃ inside rest,
                  more = inside ++ Quote.double.char :: rest ∧ isClosed inside = true := by
                simpa [StaysOpen] using unclosed
              exact further (.double inside closed) more (by simp; omega)
                (by simp [Piece.text])
          have plain : isBare c = true := by simp [isBare, ends, backslash, single, double]
          exact further (.bare c plain) more (by simp) rfl

/-- A word without open quotes is spelled in pieces, unless it ends the line
with a backslash. That one stands for itself, as if it were escaped. -/
theorem spelled_or_ends_in_backslash {c : Char} {text : Text}
    (starts : endsWord c = false) (uncommented : c ≠ '#')
    (closed : (read none (c :: text)).stillOpen = none) :
    ∃ spelling : Spelling, spelling.value = (read none (c :: text)).content ∧
      ((spelling.text ++ (read none (c :: text)).rest = c :: text ∧
          spelling.text = (read none (c :: text)).raw ∧
          EndsWord (read none (c :: text)).rest) ∨
        ∃ pieces : List Piece, c :: text = pieces.flatMap Piece.text ++ ['\\'] ∧
          spelling.text = pieces.flatMap Piece.text ++ ['\\', '\\'] ∧
          (read none (c :: text)).rest = []) := by
  obtain ⟨pieces, rest, typed, stopped⟩ := exists_pieces (c :: text)
  have word : read none (c :: text) = (read none rest).afterPieces pieces := by
    rw [typed, read_pieces]
  rcases stopped with ends | rfl | ⟨quote, inside, rfl, unclosed⟩
  · have nonempty : pieces ≠ [] := by
      rintro rfl
      obtain rfl : c :: text = rest := typed
      simp [EndsWord, starts] at ends
    obtain ⟨spelling, rfl⟩ := Spelling.exists_of_pieces nonempty typed.symm uncommented
    rw [read_of_ends ends] at word
    refine ⟨spelling, ?_, .inl ⟨?_, ?_, ?_⟩⟩ <;> rw [word]
    · simp [Word.afterPieces, stop, Spelling.value]
    · exact typed.symm
    · simp [Word.afterPieces, stop, Spelling.text]
    · exact ends
  · have typed' : (pieces ++ [Piece.escaped '\\']).flatMap Piece.text ++ [] =
        c :: (text ++ ['\\']) := by
      simpa [Piece.text] using congrArg (· ++ ['\\']) typed.symm
    obtain ⟨spelling, same⟩ :=
      Spelling.exists_of_pieces (by simp) typed' uncommented
    refine ⟨spelling, ?_, .inr ⟨_, typed, ?_, ?_⟩⟩
    · rw [word, Spelling.value, same]
      simp [Word.afterPieces, read, after, stop, Piece.value]
    · simp [Spelling.text, same, Piece.text]
    · rw [word]
      rfl
  · obtain ⟨content, opened⟩ := exists_read_open unclosed
    rw [word, read_opening, opened] at closed
    exact absurd closed (Option.some_ne_none quote)

end Token.Word

namespace Token

theorem scanFrom_spelling (spelling : Spelling) {start : Nat} {rest : Text}
    (ends : EndsWord rest) :
    scanFrom start (spelling.text ++ rest) =
      spelling.token start :: scanFrom (start + spelling.text.byteSize) rest := by
  have word : Word.read none (spelling.text ++ rest) =
      ⟨spelling.value, spelling.text, spelling.pieces.findSome? Spelling.Piece.quote?,
        none, rest⟩ := by
    rw [Spelling.text, Word.read_pieces, Word.read_of_ends ends]
    simp [Word.afterPieces, Word.stop, Spelling.value]
  obtain ⟨c, more, typed, starts, uncommented⟩ := spelling.text_head
  rw [typed, List.cons_append] at word ⊢
  rw [scanFrom_word starts uncommented, word]
  simp [Word.toToken, Spelling.token, typed]

end Token

end LineShell
