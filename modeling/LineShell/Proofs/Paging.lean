import LineShell.Proofs.Accepting
import LineShell.Proofs.Dividing

namespace LineShell.Git.HelpPage

/-! Help pages, line by line.

What a line of a page lists is found in it alone, and a carriage return at its end changes
nothing. So a page lists what its lines list one after the other, each option where it is listed
first, and every option has the form of one, whatever else may stand on the page.
-/

open Text (CutAt before splitOn trim trimStart)

variable {line : Text}

theorem spellings_eq (line : Text) :
    spellings line =
      if (trimStart line).head? = some '-' then
        (splitOn [',', ' '] (before [' ', ' '] (trimStart line))).map trim
      else [] := rfl

theorem spellings_concat_return (line : Text) :
    spellings (line ++ ['\r']) = spellings line := by
  by_cases nothing : trimStart line = []
  · have still := Text.trimStart_append_blanks nothing ⟨['\r'],
      List.forall_mem_singleton.mpr (by decide)⟩
    rw [spellings_eq, spellings_eq, nothing, still]
  · have head : (trimStart line ++ ['\r']).head? = (trimStart line).head? := by
      obtain ⟨c, rest, typed⟩ := List.exists_cons_of_ne_nil nothing
      rw [typed]
      rfl
    have other : '\r' ≠ ' ' := by decide
    rw [spellings_eq, spellings_eq, Text.trimStart_append nothing, head]
    rcases Text.before_concat (a := ' ') other (trimStart line) with same | ⟨short, long⟩
    · rw [same]
    · obtain ⟨pieces, cut⟩ := CutAt.exists_pieces ',' ' ' (trimStart line ++ ['\r'])
      rw [short, long, cut.splitOn_eq (by decide),
        cut.map_trim_splitOn (by decide) (fun same => absurd same other) (by decide)]

theorem lineOptions_concat_return (line : Text) :
    lineOptions (line ++ ['\r']) = lineOptions line := by
  rw [lineOptions, spellings_concat_return, lineOptions]

/-- What the lines of a page list, with what is listed again. -/
def listed (page : Text) : List Text := page.lines.flatMap lineOptions

theorem options_eq (page : Text) : options page = Distinct.extend [] (listed page) := rfl

theorem listed_last (within : '\n' ∉ line) : listed line = lineOptions line := by
  cases line with
  | nil => rfl
  | cons c line =>
      rw [listed, Text.lines, Lines.split, Lines.pieces_last within (List.cons_ne_nil c line),
        List.map_singleton, Lines.withoutEnding_last within, List.flatMap_singleton]

theorem lineOptions_withoutEnding (line : Text) :
    lineOptions (Lines.withoutEnding '\n' '\r' (line ++ ['\n'])) = lineOptions line := by
  by_cases returned : line.getLast? = some '\r'
  · obtain ⟨front, rfl⟩ := List.getLast?_eq_some_iff.mp returned
    rw [lineOptions_concat_return, List.append_assoc]
    exact congrArg lineOptions (Lines.withoutEnding_returned front)
  · rw [Lines.withoutEnding_bare returned]

theorem listed_line (within : '\n' ∉ line) (rest : Text) :
    listed (line ++ '\n' :: rest) = lineOptions line ++ listed rest := by
  rw [listed, Text.lines, Lines.split, Lines.pieces_line within, List.map_cons, List.flatMap_cons,
    lineOptions_withoutEnding]
  rfl

theorem listed_append_newline (page more : Text) :
    listed (page ++ '\n' :: more) = listed page ++ listed more := by
  have cut : Lines.Cut '\n' '\r' page page.lines := Lines.cut_split page
  generalize page.lines = lines at cut
  induction cut with
  | done => exact @listed_line [] (by simp) more
  | last within => rw [listed_line within, listed_last within]
  | line within bare onward ih =>
      rw [List.append_assoc, List.cons_append, listed_line within, listed_line within, ih,
        List.append_assoc]
  | @returned line rest lines within onward ih =>
      have within' : '\n' ∉ line ++ ['\r'] := by simp [within]
      have typed (behind : Text) :
          line ++ '\r' :: '\n' :: behind = (line ++ ['\r']) ++ '\n' :: behind := by simp
      rw [List.append_assoc, List.cons_append, List.cons_append, typed, typed, listed_line within',
        listed_line within', ih, List.append_assoc]

/-- Whatever a page holds, what it lists are options, none of them twice. A page that goes on
with another one lists what is new in that behind its own. -/
theorem pages_list_options_line_by_line (page more : Text) :
    (options page).Nodup ∧ (∀ option ∈ options page, Named option) ∧
      options (page ++ '\n' :: more) =
        options page ++ (options more).filter (· ∉ options page) := by
  refine ⟨Distinct.nodup_extend .nil, fun option => named_of_mem_options, ?_⟩
  rw [options_eq, listed_append_newline, Distinct.extend_append,
    Distinct.extend_eq_append_filter, ← options_eq, ← options_eq]
  exact congrArg _ (List.filter_congr fun _ _ => decide_eq_decide.mpr Iff.rfl)

theorem returned_line_goes_on_with_another :
    Named ['-', '-', 'b'] ∧
      options (['-', 'a', ',', ' ', '-', '-', 'b', '\r'] ++
          '\n' :: ['-', '-', 'b', ' ', ' ', '-', 'x', '\n', '-', 'c']) =
        [['-', 'a'], ['-', '-', 'b'], ['-', 'c']] := by
  obtain ⟨-, named, joined⟩ := pages_list_options_line_by_line
    ['-', 'a', ',', ' ', '-', '-', 'b', '\r'] ['-', '-', 'b', ' ', ' ', '-', 'x', '\n', '-', 'c']
  exact ⟨named _ (by decide +kernel), joined.trans (by decide +kernel)⟩

end LineShell.Git.HelpPage
