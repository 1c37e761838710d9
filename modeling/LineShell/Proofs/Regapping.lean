import LineShell.Proofs.Accepting

namespace LineShell

/-! Lines put together again from the widths of their gaps.

Between two tokens as many spaces are written as there were characters, whatever these were.
The blanks before the first token are left out, and what follows the last one is written only
if the line does not end in a blank. The result is as long as what was not left out. So it is
the line itself just where nothing was left out and every gap was made of spaces.
-/

open Cursor (all leading trailing)
open Token (scan)

theorem flatMap_eq_flatMap_iff {α β : Type} {f g : α → List β} {xs : List α}
    (alike : ∀ x ∈ xs, (f x).length = (g x).length) :
    xs.flatMap f = xs.flatMap g ↔ ∀ x ∈ xs, f x = g x := by
  induction xs with
  | nil => simp
  | cons x xs ih =>
      obtain ⟨head, tail⟩ := List.forall_mem_cons.mp alike
      rw [List.flatMap_cons, List.flatMap_cons, List.forall_mem_cons, ← ih tail]
      constructor
      · intro same
        exact List.append_inj same head
      · rintro ⟨first, others⟩
        rw [first, others]

namespace Cursor

/-- The token with a space for every character up to the next one. -/
def padded (line : Text) (cursor : Cursor) : Text :=
  cursor.token.raw ++ List.replicate (cursor.gap line).length ' '

/-- The suffix that the last position of a line has. -/
def lastSuffix? (tokens : List Token) (line : Text) : Option Text :=
  (last? tokens).bind (·.suffix? line)

/-- The line as it is known from the widths of its gaps. -/
def regapped (tokens : List Token) (line : Text) : Text :=
  (all tokens).flatMap (padded line) ++ (lastSuffix? tokens line).getD []

/-- What is left out at the end of the line. -/
def withheld (tokens : List Token) (line : Text) : Text :=
  match lastSuffix? tokens line with
  | none => trailing tokens line
  | some _ => []

variable {line : Text} {cursor : Cursor} {tokens : List Token}

theorem length_padded (line : Text) (cursor : Cursor) :
    (padded line cursor).length = (cursor.token.raw ++ cursor.gap line).length := by
  simp [padded]

theorem padded_eq_iff :
    padded line cursor = cursor.token.raw ++ cursor.gap line ↔
      ∀ c ∈ cursor.gap line, c = ' ' := by
  rw [padded, List.append_right_inj, eq_comm, List.eq_replicate_iff]
  exact and_iff_right rfl

theorem flatMap_padded_eq_iff (cursors : List Cursor) :
    cursors.flatMap (padded line) =
        cursors.flatMap (fun cursor => cursor.token.raw ++ cursor.gap line) ↔
      ∀ cursor ∈ cursors, ∀ c ∈ cursor.gap line, c = ' ' := by
  rw [flatMap_eq_flatMap_iff fun cursor _ => length_padded line cursor]
  exact forall₂_congr fun cursor _ => padded_eq_iff

theorem length_flatMap_padded (line : Text) (cursors : List Cursor) :
    (cursors.flatMap (padded line)).length =
      (cursors.flatMap fun cursor => cursor.token.raw ++ cursor.gap line).length := by
  simp only [List.length_flatMap, length_padded]

theorem lastSuffix?_eq (something : tokens ≠ []) :
    lastSuffix? tokens line =
      if Text.endsBlank line = true ∨ trailing tokens line = [] then none
      else some (trailing tokens line) := by
  obtain ⟨earlier, last, rfl⟩ := (List.eq_nil_or_concat tokens).resolve_left something
  rw [List.concat_eq_append, lastSuffix?, last?_concat, Option.bind_some, suffix?, trailing_concat]
  cases Text.endsBlank line with
  | true => rfl
  | false => cases trailing [last] line <;> rfl

/-- The suffix and what is left out are together what follows the last token. -/
theorem suffix_or_withheld (line : Text) (something : tokens ≠ []) :
    (lastSuffix? tokens line).getD [] ++ withheld tokens line = trailing tokens line := by
  rw [withheld, lastSuffix?_eq something]
  split <;> simp

theorem withheld_eq_nil_iff (something : tokens ≠ []) :
    withheld tokens line = [] ↔ trailing tokens line = [] ∨ Text.endsBlank line = false := by
  rw [withheld, lastSuffix?_eq something]
  cases Text.endsBlank line <;> by_cases nothing : trailing tokens line = [] <;> simp [nothing]

end Cursor

open Cursor

namespace Layout

variable {line : Text} {tokens : List Token}

theorem rebuilt_line (layout : Layout 0 line tokens) (something : tokens ≠ []) :
    leading tokens line ++
      (all tokens).flatMap (fun cursor => cursor.token.raw ++ cursor.gap line) ++
      trailing tokens line = line := by
  obtain ⟨token, more, rfl⟩ := List.exists_cons_of_ne_nil something
  exact layout.rebuilt (.whole line) []

theorem leading_eq_nil_iff (layout : Layout 0 line tokens) (something : tokens ≠ []) :
    leading tokens line = [] ↔ ∀ c ∈ line.head?, Text.isBlank c = false := by
  cases layout with
  | ending => exact absurd rfl something
  | @token _ blanks token rest tokens read onward =>
      have lead := (Text.RestAt.whole (blanks.text ++ (token.raw ++ rest))).slice?
      have found : leading (token :: tokens) (blanks.text ++ (token.raw ++ rest)) =
          blanks.text := by
        rw [leading, read.span_eq, lead, Option.getD_some]
      obtain ⟨c, behind, raw, unblank, -⟩ := read.raw_head
      rw [found]
      cases text : blanks.text with
      | nil => simp [raw, unblank]
      | cons d more => simp [blanks.blank d (by simp [text])]

end Layout

/-- What comes out is as long as the line without what was left out of it. -/
theorem length_regapped {line : Text} (something : scan line ≠ []) :
    (regapped (scan line) line).length + (leading (scan line) line).length +
      (withheld (scan line) line).length = line.length := by
  have whole := congrArg List.length ((layout_scan line).rebuilt_line something)
  have behind := congrArg List.length (suffix_or_withheld line something)
  rw [List.length_append] at behind
  rw [List.length_append, List.length_append] at whole
  rw [regapped, List.length_append, length_flatMap_padded]
  omega

/-- The widths of the gaps give back the lines whose gaps are made of spaces, if nothing is
before their first token and nothing is left out behind their last. -/
theorem gap_widths_rebuild_spaced_lines {line : Text} (something : scan line ≠ []) :
    (regapped (scan line) line = line ↔
      (∀ c ∈ line.head?, Text.isBlank c = false) ∧
      (∀ cursor ∈ all (scan line), ∀ c ∈ cursor.gap line, c = ' ') ∧
      (trailing (scan line) line = [] ∨ Text.endsBlank line = false)) ∧
    (regapped (scan line) line).length + (leading (scan line) line).length +
      (withheld (scan line) line).length = line.length := by
  have layout := layout_scan line
  have length := length_regapped something
  have behind := suffix_or_withheld line something
  refine ⟨?_, length⟩
  rw [← layout.leading_eq_nil_iff something, ← flatMap_padded_eq_iff,
    ← withheld_eq_nil_iff something]
  constructor
  · intro same
    rw [same] at length
    have unled : leading (scan line) line = [] := List.length_eq_zero_iff.mp (by omega)
    have unheld : withheld (scan line) line = [] := List.length_eq_zero_iff.mp (by omega)
    have whole := layout.rebuilt_line something
    rw [unheld, List.append_nil] at behind
    rw [unled, List.nil_append] at whole
    rw [regapped, behind] at same
    exact ⟨unled, List.append_cancel_right (same.trans whole.symm), unheld⟩
  · rintro ⟨unled, spaces, unheld⟩
    have whole := layout.rebuilt_line something
    rw [unheld, List.append_nil] at behind
    rw [unled, List.nil_append] at whole
    rw [regapped, spaces, behind, whole]

theorem remark_is_rebuilt_behind_spaced_words :
    scan ['é', ' ', ' ', '\\', '\t', ' ', '#', ' ', 'x'] ≠ [] ∧
    regapped (scan ['é', ' ', ' ', '\\', '\t', ' ', '#', ' ', 'x'])
      ['é', ' ', ' ', '\\', '\t', ' ', '#', ' ', 'x'] =
        ['é', ' ', ' ', '\\', '\t', ' ', '#', ' ', 'x'] := by
  have something : scan ['é', ' ', ' ', '\\', '\t', ' ', '#', ' ', 'x'] ≠ [] := by decide +kernel
  have spaced : (all (scan ['é', ' ', ' ', '\\', '\t', ' ', '#', ' ', 'x'])).all (fun cursor =>
      (cursor.gap ['é', ' ', ' ', '\\', '\t', ' ', '#', ' ', 'x']).all (· = ' ')) = true := by
    decide +kernel
  have visible : Text.isBlank 'é' = false := by decide
  exact ⟨something, (gap_widths_rebuild_spaced_lines something).1.mpr
    ⟨by simpa using visible, by simpa using spaced, .inr (by decide)⟩⟩

end LineShell
