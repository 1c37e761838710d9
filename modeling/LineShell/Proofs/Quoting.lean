import LineShell.Proofs.Spelling
import LineShell.Text.ShellQuoted

namespace LineShell

/-! Quoted words are spelled.

Every chunk of a quoted word is a row of pieces: a bare chunk has one for each
character, a chunk in quotes is a single one. None of them begins like a comment,
so that the row spells a word.
-/

namespace ShellQuoted

open Spelling (Piece isBare isClosed unescaped)
open Token (endsWord isOperatorChar isEscapable)

/-- The text is a row of pieces that denote the value. -/
def Spelled (text value : Text) : Prop :=
  ∃ pieces : List Piece, pieces.flatMap Piece.text = text ∧
    pieces.flatMap Piece.value = value ∧ ∀ piece ∈ pieces, piece.text ≠ ['#']

theorem Spelled.nil : Spelled [] [] := ⟨[], rfl, rfl, by simp⟩

theorem Spelled.piece (piece : Piece) (uncommented : piece.text ≠ ['#']) :
    Spelled piece.text piece.value :=
  ⟨[piece], by simp, by simp, by simpa using uncommented⟩

theorem Spelled.append {text value text' value' : Text} (left : Spelled text value)
    (right : Spelled text' value') : Spelled (text ++ text') (value ++ value') := by
  obtain ⟨first, rfl, rfl, uncommented⟩ := left
  obtain ⟨second, rfl, rfl, uncommented'⟩ := right
  refine ⟨first ++ second, by simp, by simp, ?_⟩
  intro piece member
  rcases List.mem_append.mp member with before | behind
  · exact uncommented piece before
  · exact uncommented' piece behind

theorem Spelled.exists_spelling {text value : Text} (spelled : Spelled text value)
    (nonempty : value ≠ []) :
    ∃ spelling : Spelling, spelling.text = text ∧ spelling.value = value := by
  obtain ⟨pieces, rfl, rfl, uncommented⟩ := spelled
  cases pieces with
  | nil => exact absurd rfl nonempty
  | cons first more => exact ⟨⟨first, more, uncommented first (by simp)⟩, rfl, rfl⟩

theorem code_of_isAlphanum {c : Char} (alphanumeric : c.isAlphanum = true) :
    32 < c.toNat ∧ c.toNat < 128 := by
  rcases Bool.or_eq_true_iff.mp alphanumeric with letter | digit
  · rcases Bool.or_eq_true_iff.mp letter with upper | lower
    · obtain ⟨low, high⟩ : 'A'.val ≤ c.val ∧ c.val ≤ 'Z'.val := of_decide_eq_true upper
      have low : 65 ≤ c.toNat := UInt32.le_iff_toNat_le.mp low
      have high : c.toNat ≤ 90 := UInt32.le_iff_toNat_le.mp high
      omega
    · obtain ⟨low, high⟩ := Bool.and_eq_true_iff.mp lower
      have low : 97 ≤ c.toNat := UInt32.le_iff_toNat_le.mp (of_decide_eq_true low)
      have high : c.toNat ≤ 122 := UInt32.le_iff_toNat_le.mp (of_decide_eq_true high)
      omega
  · obtain ⟨low, high⟩ := Char.isDigit_iff_toNat.mp digit
    have low : 48 ≤ c.toNat := low
    have high : c.toNat ≤ 57 := high
    omega

theorem isBlank_of_isPlain {c : Char} (plain : isPlain c = true) :
    Text.isBlank c = false := by
  rw [isPlain, Bool.or_eq_true] at plain
  rcases plain with alphanumeric | mark
  · have code := code_of_isAlphanum alphanumeric
    simp only [Text.isBlank, Bool.or_eq_false_iff, Bool.and_eq_false_imp, decide_eq_true_eq,
      decide_eq_false_iff_not, beq_eq_false_iff_ne]
    omega
  · simp only [decide_eq_true_eq, List.mem_cons, List.not_mem_nil, or_false] at mark
    rcases mark with rfl | rfl | rfl | rfl | rfl | rfl | rfl | rfl <;> decide

theorem ne_of_isPlain {c special : Char} (plain : isPlain c = true)
    (marked : isPlain special = false) : c ≠ special := by
  rintro rfl
  simp [marked] at plain

theorem isBare_of_isPlain {c : Char} (plain : isPlain c = true) : isBare c = true := by
  have unblank := isBlank_of_isPlain plain
  have and := ne_of_isPlain plain (show isPlain '&' = false by decide)
  have or := ne_of_isPlain plain (show isPlain '|' = false by decide)
  have sequence := ne_of_isPlain plain (show isPlain ';' = false by decide)
  have backslash := ne_of_isPlain plain (show isPlain '\\' = false by decide)
  have single := ne_of_isPlain plain (show isPlain '\'' = false by decide)
  have double := ne_of_isPlain plain (show isPlain '"' = false by decide)
  simp [isBare, endsWord, isOperatorChar, Quote.char, *]

theorem spelled_bare {text : Text} (plain : ∀ c ∈ text, isPlain c = true) :
    Spelled text text := by
  induction text with
  | nil => exact .nil
  | cons c text ih =>
      have here : isPlain c = true := plain c (by simp)
      have uncommented := ne_of_isPlain here (show isPlain '#' = false by decide)
      have first := Spelled.piece (.bare c (isBare_of_isPlain here))
        (by simpa [Piece.text] using uncommented)
      exact first.append (ih fun d member => plain d (.tail _ member))

theorem spelled_single {text : Text} (unquoted : Quote.single.char ∉ text) :
    Spelled ('\'' :: text ++ ['\'']) text :=
  .piece (.single text unquoted) (by simp [Piece.text, Quote.char])

/-- The text with a backslash before every double quote and every backslash. -/
def escapeDouble (text : Text) : Text :=
  text.flatMap fun c => if c = '"' ∨ c = '\\' then ['\\', c] else [c]

theorem isClosed_escapeDouble (text : Text) : isClosed (escapeDouble text) = true := by
  induction text with
  | nil => rfl
  | cons c text ih =>
      by_cases special : c = '"' ∨ c = '\\'
      · have escapable : isEscapable c = true := by
          rcases special with rfl | rfl <;> rfl
        simpa [escapeDouble, special, isClosed, escapable, Quote.char] using ih
      · rw [escapeDouble, List.flatMap_cons, if_neg special, List.singleton_append,
          isClosed.eq_def]
        simp only [not_or] at special
        simpa [special, Quote.char, escapeDouble] using ih

theorem unescaped_escapeDouble (text : Text) : unescaped (escapeDouble text) = text := by
  induction text with
  | nil => rfl
  | cons c text ih =>
      by_cases special : c = '"' ∨ c = '\\'
      · have escapable : isEscapable c = true := by
          rcases special with rfl | rfl <;> rfl
        rw [escapeDouble, List.flatMap_cons, if_pos special, List.cons_append,
          List.singleton_append, Spelling.unescaped_escaped escapable, ← escapeDouble, ih]
      · have unescaping : c ≠ '\\' := fun same => special (.inr same)
        rw [escapeDouble, List.flatMap_cons, if_neg special, List.singleton_append,
          Spelling.unescaped_cons unescaping, ← escapeDouble, ih]

theorem spelled_double (text : Text) :
    Spelled ('"' :: escapeDouble text ++ ['"']) text := by
  have spelled := Spelled.piece (.double _ (isClosed_escapeDouble text))
    (by simp [Piece.text, Quote.char])
  rwa [Piece.value, unescaped_escapeDouble] at spelled

/-- What the style writes can be read back. -/
def Style.writes : Style → Char → Prop
  | .bare, c => isPlain c = true
  | .single, c => c ≠ '\''
  | .double, _ => True

theorem Style.writes_of_admits {style : Style} {c : Char} (admits : style.admits c = true) :
    style.writes c := by
  cases style with
  | bare => exact admits
  | single =>
      rintro rfl
      revert admits
      decide
  | double => trivial

/-- A style is left for the chunk, and each one left can write all of it. -/
structure Chunk.Written (chunk : Chunk) : Prop where
  styles : chunk.styles ≠ []
  writes : ∀ style ∈ chunk.styles, ∀ c ∈ chunk.text, style.writes c

theorem Chunk.Written.spelled {chunk : Chunk} (written : chunk.Written) :
    Spelled chunk.render chunk.text := by
  obtain ⟨styles, text, rest⟩ := chunk
  cases styles with
  | nil => exact absurd rfl written.styles
  | cons style styles =>
      have writes := written.writes style (by simp)
      cases style with
      | bare => exact spelled_bare writes
      | single => exact spelled_single fun member => writes _ member rfl
      | double => exact spelled_double text

theorem extend_written {styles : List Style} (some_style : styles ≠ []) (text : Text) :
    (extend styles text).Written ∧
      ∀ style ∈ (extend styles text).styles, style ∈ styles := by
  induction text generalizing styles with
  | nil => exact ⟨⟨some_style, by simp [extend]⟩, fun _ member => member⟩
  | cons c text ih =>
      rw [extend]
      split
      · exact ⟨⟨some_style, by simp⟩, fun _ member => member⟩
      · next style more left =>
          obtain ⟨written, among⟩ := ih (List.cons_ne_nil style more)
          have admits : ∀ kept ∈ (extend (style :: more) text).styles,
              kept ∈ styles ∧ kept.admits c = true := by
            intro kept member
            have member := among kept member
            rwa [← left, List.mem_filter] at member
          refine ⟨⟨written.styles, ?_⟩, fun kept member => (admits kept member).1⟩
          intro kept member d within
          rcases List.mem_cons.mp within with rfl | within
          · exact Style.writes_of_admits (admits kept member).2
          · exact written.writes kept member d within

theorem firstChunk_written (c : Char) (rest : Text) : (firstChunk c rest).Written := by
  obtain ⟨styles, some_style, writes, chunk⟩ : ∃ styles : List Style, styles ≠ [] ∧
      (∀ style ∈ styles, style.writes c) ∧
      firstChunk c rest = { extend styles rest with text := c :: (extend styles rest).text } := by
    by_cases caret : c = '^'
    · subst caret
      exact ⟨[.single], by simp, by simp [Style.writes], rfl⟩
    · refine ⟨[.bare, .single, .double].filter (·.admits c), ?_, ?_, ?_⟩
      · by_cases quoted : c = '\'' ∨ c = '\\'
        · rcases quoted with rfl | rfl <;> decide
        · have single : Style.single.admits c = true := by
            simpa [Style.admits, caret] using quoted
          exact List.ne_nil_of_mem (List.mem_filter.mpr ⟨by simp, single⟩)
      · intro style member
        exact Style.writes_of_admits (List.mem_filter.mp member).2
      · rw [firstChunk, if_neg caret]
  obtain ⟨written, among⟩ := extend_written some_style rest
  rw [chunk]
  refine ⟨written.styles, ?_⟩
  intro style member d within
  rcases List.mem_cons.mp within with rfl | within
  · exact writes style (among style member)
  · exact written.writes style member d within

theorem spelled_render (word : Text) : Spelled (render word) word := by
  fun_induction render word with
  | case1 => exact .nil
  | case2 c rest ih =>
      have whole : (firstChunk c rest).text ++ (firstChunk c rest).rest = c :: rest := by
        simp [firstChunk, extend_append]
      rw [← whole]
      exact (firstChunk_written c rest).spelled.append ih

/-- A quoted word denotes the word, wherever it can stand. -/
theorem exists_spelling_of_quote? {word text : Text} (quoted : quote? word = some text) :
    ∃ spelling : Spelling, spelling.text = text ∧ spelling.value = word := by
  unfold quote? at quoted
  split at quoted
  · next empty =>
      obtain rfl := Option.some.inj quoted
      exact ⟨⟨.single [] (by simp), [], by simp [Piece.text]⟩, rfl, empty.symm⟩
  · next nonempty =>
      split at quoted
      · contradiction
      · obtain rfl := Option.some.inj quoted
        exact (spelled_render word).exists_spelling nonempty

end ShellQuoted

end LineShell
