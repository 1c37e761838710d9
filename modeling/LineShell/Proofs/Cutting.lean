import LineShell.Git.Queries
import LineShell.Proofs.Scanning

namespace LineShell

/-! Cutting a text into lines, and the blanks off a line.

A newline ends a line; what else it may end with is told by `Cut`. A listing names what
stands on a line of its own, whatever blanks are around it.
-/

namespace Lines

variable {α : Type} {newline carriageReturn : α}

inductive Cut (newline carriageReturn : α) : List α → List (List α) → Prop where
  | done : Cut newline carriageReturn [] []
  | last {line : List α} (within : newline ∉ line) (nonempty : line ≠ []) :
      Cut newline carriageReturn line [line]
  | line {line rest : List α} {lines : List (List α)} (within : newline ∉ line)
      (bare : line.getLast? ≠ some carriageReturn)
      (onward : Cut newline carriageReturn rest lines) :
      Cut newline carriageReturn (line ++ newline :: rest) (line :: lines)
  | returned {line rest : List α} {lines : List (List α)} (within : newline ∉ line)
      (onward : Cut newline carriageReturn rest lines) :
      Cut newline carriageReturn (line ++ carriageReturn :: newline :: rest) (line :: lines)

variable [DecidableEq α] {line : List α}

theorem pieces_line (within : newline ∉ line) (rest : List α) :
    pieces newline (line ++ newline :: rest) = (line ++ [newline]) :: pieces newline rest := by
  induction line with
  | nil => simp [pieces]
  | cons c line ih =>
      obtain ⟨other, within⟩ := not_or.mp (mt List.mem_cons.mpr within)
      rw [List.cons_append, pieces, if_neg (Ne.symm other), ih within]
      rfl

theorem pieces_last (within : newline ∉ line) (nonempty : line ≠ []) :
    pieces newline line = [line] := by
  induction line with
  | nil => exact absurd rfl nonempty
  | cons c line ih =>
      obtain ⟨other, within⟩ := not_or.mp (mt List.mem_cons.mpr within)
      rw [pieces, if_neg (Ne.symm other)]
      cases line with
      | nil => rfl
      | cons d line => rw [ih within (List.cons_ne_nil d line)]

theorem withoutEnding_returned (line : List α) :
    withoutEnding newline carriageReturn (line ++ [carriageReturn, newline]) = line := by
  simp [withoutEnding]

theorem withoutEnding_bare (bare : line.getLast? ≠ some carriageReturn) :
    withoutEnding newline carriageReturn (line ++ [newline]) = line := by
  rcases List.eq_nil_or_concat line with rfl | ⟨front, last, rfl⟩
  · simp [withoutEnding]
  · have other : last ≠ carriageReturn := by simpa using bare
    simp [withoutEnding, other]

theorem withoutEnding_last (within : newline ∉ line) :
    withoutEnding newline carriageReturn line = line := by
  rcases List.eq_nil_or_concat line with rfl | ⟨front, last, rfl⟩
  · rfl
  · have other : last ≠ newline := by
      rintro rfl
      exact within (by simp)
    simp [withoutEnding, other]

theorem cut_split (input : List α) :
    Cut newline carriageReturn input (split newline carriageReturn input) := by
  induction length : input.length using Nat.strongRecOn generalizing input with
  | _ length ih =>
      subst length
      by_cases ended : newline ∈ input
      · obtain ⟨line, rest, rfl, within⟩ := List.eq_append_cons_of_mem ended
        have onward := ih rest.length (by simp; omega) rest rfl
        rw [split, pieces_line within, List.map_cons]
        by_cases returned : line.getLast? = some carriageReturn
        · obtain ⟨line, rfl⟩ := List.getLast?_eq_some_iff.mp returned
          rw [List.append_assoc, List.append_assoc]
          have shape : [carriageReturn] ++ [newline] = [carriageReturn, newline] := rfl
          rw [shape, withoutEnding_returned]
          exact .returned (fun member => within (by simp [member])) onward
        · rw [withoutEnding_bare returned]
          exact .line within returned onward
      · cases input with
        | nil => exact .done
        | cons c input =>
            rw [split, pieces_last ended (List.cons_ne_nil c input), List.map_singleton,
              withoutEnding_last ended]
            exact .last ended (List.cons_ne_nil c input)

end Lines

namespace Text

variable {line name : Text}

/-- Something without a blank at either end. -/
structure Trimmed (name : Text) : Prop where
  nonempty : name ≠ []
  head : ∀ c ∈ name.head?, isBlank c = false
  last : ∀ c ∈ name.getLast?, isBlank c = false

theorem exists_blanks_trimStart (line : Text) :
    ∃ blanks : Blanks, line = blanks.text ++ trimStart line := by
  have blank : ∀ c ∈ line.takeWhile isBlank, isBlank c = true :=
    List.all_eq_true.mp List.all_takeWhile
  exact ⟨⟨_, blank⟩, List.takeWhile_append_dropWhile.symm⟩

theorem trimEnd_eq_reverse (line : Text) : trimEnd line = (trimStart line.reverse).reverse := rfl

theorem exists_blanks_trimEnd (line : Text) :
    ∃ blanks : Blanks, line = trimEnd line ++ blanks.text := by
  obtain ⟨⟨text, blank⟩, cut⟩ := exists_blanks_trimStart line.reverse
  refine ⟨⟨text.reverse, fun c member => blank c (List.mem_reverse.mp member)⟩, ?_⟩
  rw [trimEnd_eq_reverse, ← List.reverse_append, ← cut, List.reverse_reverse]

theorem trimStart_blanks (blanks : Blanks) (line : Text) :
    trimStart (blanks.text ++ line) = trimStart line := by
  rw [trimStart, List.dropWhile_append_of_pos blanks.blank]
  rfl

theorem trimStart_of_head (head : ∀ c ∈ line.head?, isBlank c = false) :
    trimStart line = line := by
  cases line with
  | nil => rfl
  | cons c line => simp [trimStart, head c rfl]

theorem trimEnd_blanks (blanks : Blanks) (line : Text) :
    trimEnd (line ++ blanks.text) = trimEnd line := by
  rw [trimEnd_eq_reverse, List.reverse_append, trimEnd_eq_reverse]
  exact congrArg _ (trimStart_blanks ⟨blanks.text.reverse, by simpa using blanks.blank⟩ _)

theorem head_trimStart (line : Text) : ∀ c ∈ (trimStart line).head?, isBlank c = false := by
  intro c member
  have shown := List.head?_dropWhile_not isBlank line
  rw [trimStart] at member
  rw [Option.mem_def.mp member] at shown
  exact shown

theorem mem_head?_of_trimEnd {c : Char} (member : c ∈ (trimEnd line).head?) : c ∈ line.head? := by
  obtain ⟨blanks, cut⟩ := exists_blanks_trimEnd line
  rw [cut, List.head?_append]
  exact Option.mem_def.mpr (Option.or_eq_some_iff.mpr (.inl member))

/-- What is left of a line is what stands between its outer blanks. -/
theorem trim_eq_iff (nonempty : name ≠ []) :
    trim line = name ↔ Trimmed name ∧
      ∃ front back : Blanks, line = front.text ++ (name ++ back.text) := by
  constructor
  · rintro rfl
    obtain ⟨front, left⟩ := exists_blanks_trimStart line
    obtain ⟨back, right⟩ := exists_blanks_trimEnd (trimStart line)
    refine ⟨⟨nonempty, ?_, ?_⟩, front, back, ?_⟩
    · intro c member
      exact head_trimStart line c (mem_head?_of_trimEnd member)
    · intro c member
      apply head_trimStart (trimStart line).reverse c
      simpa [trim, trimEnd_eq_reverse] using member
    · exact left.trans (congrArg _ right)
  · rintro ⟨trimmed, front, back, rfl⟩
    have head : ∀ c ∈ (name ++ back.text).head?, isBlank c = false := by
      obtain ⟨c, rest, rfl⟩ := List.exists_cons_of_ne_nil nonempty
      exact trimmed.head
    have last : ∀ c ∈ name.reverse.head?, isBlank c = false := by
      rw [List.head?_reverse]
      exact trimmed.last
    rw [trim, trimStart_blanks, trimStart_of_head head, trimEnd_blanks, trimEnd_eq_reverse,
      trimStart_of_head last, List.reverse_reverse]

/-- Between some blanks and others there is the name. -/
def Surrounds (line name : Text) : Prop :=
  ∃ front back : Blanks, line = front.text ++ (name ++ back.text)

theorem surrounds_concat {c : Char} (blank : isBlank c = true) (trimmed : Trimmed name) :
    (line ++ [c]).Surrounds name ↔ line.Surrounds name := by
  constructor
  · rintro ⟨front, ⟨back, blanks⟩, typed⟩
    rcases List.eq_nil_or_concat back with rfl | ⟨back, last, rfl⟩
    · -- The character would be the last one of the name.
      obtain ⟨body, last, rfl⟩ := (List.eq_nil_or_concat name).resolve_left trimmed.nonempty
      have typed : line ++ [c] = (front.text ++ body) ++ [last] := by simpa using typed
      obtain ⟨-, same⟩ := List.append_inj' typed rfl
      have unblank := trimmed.last last (by simp)
      rw [← (List.cons.inj same).1, blank] at unblank
      cases unblank
    · have typed : line ++ [c] = (front.text ++ (name ++ back)) ++ [last] := by simpa using typed
      obtain ⟨rfl, -⟩ := List.append_inj' typed rfl
      exact ⟨front, ⟨back, fun d member => blanks d (by simp [member])⟩, by simp⟩
  · rintro ⟨front, ⟨back, blanks⟩, rfl⟩
    have more : ∀ d ∈ back ++ [c], isBlank d = true := by
      intro d member
      rcases List.mem_append.mp member with member | member
      · exact blanks d member
      · rw [List.mem_singleton.mp member]
        exact blank
    exact ⟨front, ⟨back ++ [c], more⟩, by simp⟩

end Text

namespace Git

/-- The name stands on a line of its own, but for blanks. -/
inductive Listed (name : Text) : Text → Prop where
  | here {line rest : Text} (within : '\n' ∉ line) (alone : line.Surrounds name)
      (ended : ∀ c ∈ rest.head?, c = '\n') : Listed name (line ++ rest)
  | later {line rest : Text} (within : '\n' ∉ line) (onward : Listed name rest) :
      Listed name (line ++ '\n' :: rest)

variable {name line rest listing : Text}

theorem eq_of_append_newline {line' rest' : Text} (within : '\n' ∉ line) (within' : '\n' ∉ line')
    (ended : ∀ c ∈ rest'.head?, c = '\n') (same : line' ++ rest' = line ++ '\n' :: rest) :
    line' = line ∧ rest' = '\n' :: rest := by
  rcases List.append_eq_append_iff.mp same with ⟨between, rfl, typed⟩ | ⟨between, rfl, typed⟩
  · cases between with
    | nil => exact ⟨by simp, by simpa using typed⟩
    | cons c between =>
        obtain rfl : c = '\n' := ended c (by simp [typed])
        exact absurd (by simp) within
  · cases between with
    | nil => exact ⟨by simp, by simpa using typed.symm⟩
    | cons c between =>
        obtain ⟨rfl, -⟩ := List.cons.inj typed
        exact absurd (by simp) within'

theorem listed_last (within : '\n' ∉ line) : Listed name line ↔ line.Surrounds name := by
  constructor
  · intro listed
    cases listed with
    | @here line rest _ alone ended =>
        cases rest with
        | nil => simpa using alone
        | cons c rest =>
            obtain rfl := ended c rfl
            exact absurd (by simp) within
    | later => exact absurd (by simp) within
  · intro alone
    have listed : Listed name (line ++ []) := .here within alone (by simp)
    rwa [List.append_nil] at listed

theorem listed_line (within : '\n' ∉ line) :
    Listed name (line ++ '\n' :: rest) ↔ line.Surrounds name ∨ Listed name rest := by
  constructor
  · generalize typed : line ++ '\n' :: rest = whole
    intro listed
    cases listed with
    | here within' alone ended =>
        obtain ⟨rfl, -⟩ := eq_of_append_newline within within' ended typed.symm
        exact .inl alone
    | later within' onward =>
        obtain ⟨-, same⟩ := eq_of_append_newline within within' (by simp) typed.symm
        obtain ⟨-, rfl⟩ := List.cons.inj same
        exact .inr onward
  · rintro (alone | onward)
    · exact .here within alone (by simp)
    · exact .later within onward

theorem exists_trim_iff {lines : List Text} (cut : Lines.Cut '\n' '\r' listing lines)
    (trimmed : name.Trimmed) :
    (∃ line ∈ lines, line.trim = name) ↔ Listed name listing := by
  have here (line : Text) : line.trim = name ↔ line.Surrounds name := by
    rw [Text.trim_eq_iff trimmed.nonempty]
    exact and_iff_right trimmed
  induction cut with
  | done =>
      rw [listed_last (by simp)]
      simp [Text.Surrounds, trimmed.nonempty]
  | last within => simp [listed_last within, here]
  | line within bare onward ih => simp [listed_line within, ← ih, here]
  | @returned line rest lines within onward ih =>
      have within' : '\n' ∉ line ++ ['\r'] := by simp [within]
      have typed : line ++ '\r' :: '\n' :: rest = (line ++ ['\r']) ++ '\n' :: rest := by simp
      rw [typed, listed_line within', Text.surrounds_concat (by decide) trimmed]
      simp [← ih, here]

/-- The names in a listing are those that stand on lines of their own. -/
theorem mem_namesOfListing :
    name ∈ namesOfListing listing ↔ name.Trimmed ∧ Listed name listing := by
  have cut : Lines.Cut '\n' '\r' listing listing.lines := Lines.cut_split listing
  simp only [namesOfListing, List.mem_filter, List.mem_map, Bool.not_eq_true',
    List.isEmpty_eq_false_iff]
  constructor
  · rintro ⟨⟨line, member, trim⟩, nonempty⟩
    obtain ⟨trimmed, -⟩ := (Text.trim_eq_iff nonempty).mp trim
    exact ⟨trimmed, (exists_trim_iff cut trimmed).mp ⟨line, member, trim⟩⟩
  · rintro ⟨trimmed, listed⟩
    exact ⟨(exists_trim_iff cut trimmed).mpr listed, trimmed.nonempty⟩

end Git

end LineShell
