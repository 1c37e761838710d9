import LineShell.Proofs.Transcribing

namespace LineShell.Toml

open Reader

/-! Lists of strings that are written and read again.

A list stands on one line, or each of its strings stands on a line of its own, with a comma behind
it. Between the strings a reader passes over blanks and newlines.
-/

variable {text rest blanks : Text} {c : Char}

/-- Something stands here that neither a blank, a comment nor a newline begins with. -/
def Solid (text : Text) : Prop :=
  ∀ c ∈ text.head?, isSpace c = false ∧ c ≠ '#' ∧ c ≠ '\n' ∧ c ≠ '\r'

def emptyLine? : Reader (Option Unit) := do
  spaces
  match ← peek? with
  | some '#' =>
      comment?
      lineEnd
      return some ()
  | some '\n' | some '\r' =>
      newline
      return some ()
  | _ => return none

theorem emptyLines_eq : emptyLines = (many emptyLine? >>= fun _ => pure ()) := rfl

theorem reads_emptyLine_none (all : ∀ c ∈ blanks, isSpace c = true) (solid : Solid rest) :
    emptyLine?.Reads (blanks ++ rest) none rest := by
  refine (reads_spaces all fun c head => (solid c head).1).bind ((reads_peek rest).bind ?_)
  split
  · next head => exact absurd rfl (solid _ head).2.1
  · next head => exact absurd rfl (solid _ head).2.2.1
  · next head => exact absurd rfl (solid _ head).2.2.2
  · exact .pure none rest

theorem reads_emptyLine_newline (rest : Text) :
    emptyLine?.Reads ('\n' :: rest) (some ()) rest := by
  refine (reads_spaces_none (by simp [isSpace])).bind ((reads_peek _).bind ?_)
  exact (reads_newline rest).bind (.pure (some ()) rest)

theorem reads_emptyLines (lines : Nat) (all : ∀ c ∈ blanks, isSpace c = true)
    (solid : Solid rest) :
    emptyLines.Reads (List.replicate lines '\n' ++ (blanks ++ rest)) () rest := by
  have turns : Turns emptyLine? (List.replicate lines '\n' ++ (blanks ++ rest))
      (List.replicate lines ()) rest := by
    induction lines with
    | zero => exact .stop (reads_emptyLine_none all solid)
    | succ lines ih => exact .more (reads_emptyLine_newline _) (Nat.lt_succ_self _) ih
  rw [emptyLines_eq]
  exact turns.many.bind (.pure () rest)

theorem reads_emptyLines_none (solid : Solid rest) : emptyLines.Reads rest () rest :=
  reads_emptyLines 0 (List.forall_mem_nil _) solid

theorem Solid.cons (solid : isSpace c = false ∧ c ≠ '#' ∧ c ≠ '\n' ∧ c ≠ '\r') (rest : Text) :
    Solid (c :: rest) := by
  intro d head
  obtain rfl := Option.some.inj head
  exact solid

/-- What is written for a string begins with a quote. -/
theorem writeString_eq_cons (text : Text) :
    ∃ mark behind, writeString text = mark :: behind ∧ (mark = '"' ∨ mark = '\'') := by
  obtain ⟨behind, written⟩ := exists_writeString text
  refine ⟨_, behind, written, ?_⟩
  rcases StringForm.holds_preferred text with double | ⟨single, -⟩
  · exact .inl (congrArg Quotes.mark double)
  · exact .inr (congrArg Quotes.mark single)

theorem solid_writeString (text rest : Text) : Solid (writeString text ++ rest) := by
  obtain ⟨mark, behind, written, quote⟩ := writeString_eq_cons text
  rw [written]
  refine .cons ?_ _
  rcases quote with rfl | rfl <;> decide

theorem writeString_ne_bracket (text rest : Text) : ¬ [']'] <+: writeString text ++ rest := by
  obtain ⟨mark, behind, written, quote⟩ := writeString_eq_cons text
  rw [written]
  rintro ⟨more, same⟩
  obtain rfl := (List.cons.inj same).1
  rcases quote with same | same <;> cases same

def element? (value : Reader Value) : Reader (Option Value) := do
  if ← taken [']'] then return none
  let value ← value
  emptyLines
  if ← taken [','] then emptyLines
  else if (← peek?) ≠ some ']' then failure
  return some value

theorem elements_eq (value : Reader Value) :
    elements value = (emptyLines >>= fun _ => many (element? value)) := rfl

variable {item : Reader Value} {found : Value}

theorem reads_element_none (item : Reader Value) (rest : Text) :
    (element? item).Reads (']' :: rest) none rest := by
  exact (reads_taken [']'] rest).bind (.pure none rest)

theorem reads_element_last (other : ¬ [']'] <+: text) (read : item.Reads text found (']' :: rest)) :
    (element? item).Reads text (some found) (']' :: rest) := by
  refine (reads_taken_other other).bind ?_
  refine read.bind ((reads_emptyLines_none (.cons (by decide) rest)).bind ?_)
  refine (reads_taken_other (by simp)).bind ?_
  refine ((reads_peek _).bind ?_)
  rw [if_neg (by simp)]
  exact .pure (some found) _

theorem reads_element_comma (other : ¬ [']'] <+: text) (all : ∀ c ∈ blanks, isSpace c = true)
    (solid : Solid rest) (read : item.Reads text found (",\n".toList ++ (blanks ++ rest))) :
    (element? item).Reads text (some found) rest := by
  refine (reads_taken_other other).bind ?_
  refine read.bind ((reads_emptyLines_none (.cons (by decide) _)).bind ?_)
  refine (reads_taken [','] ('\n' :: (blanks ++ rest))).bind ?_
  exact (reads_emptyLines 1 all solid).bind (.pure (some found) rest)

/-- A string of several, on a line of its own. -/
def writeItem (text : Text) : Text := "    ".toList ++ writeString text ++ ",\n".toList

/-- The lines of a list are read from its first string on, or from the bracket that closes it. -/
theorem exists_turns_items (depth : Nat) (texts : List Text) (rest : Text) :
    ∃ blanks behind, texts.flatMap writeItem ++ ']' :: rest = blanks ++ behind ∧
      (∀ c ∈ blanks, isSpace c = true) ∧ Solid behind ∧
      Turns (element? (value depth)) behind (texts.map .string) rest := by
  induction texts with
  | nil =>
      exact ⟨[], ']' :: rest, rfl, List.forall_mem_nil _, .cons (by decide) rest,
        .stop (reads_element_none _ rest)⟩
  | cons text texts ih =>
      obtain ⟨blanks, behind, written, all, solid, turns⟩ := ih
      refine ⟨"    ".toList, writeString text ++ (",\n".toList ++ (blanks ++ behind)), ?_,
        by simp [isSpace], solid_writeString text _, ?_⟩
      · rw [List.flatMap_cons, List.append_assoc, written, writeItem]
        simp only [List.append_assoc]
      · have ends : ∀ c ∈ (",\n".toList ++ (blanks ++ behind)).head?, c ≠ '"' ∧ c ≠ '\'' := by simp
        have read : (value depth).Reads _ (.string text) _ := reads_writeString text ends depth
        refine .more (reads_element_comma (writeString_ne_bracket _ _) all solid read) ?_ turns
        simp only [List.length_append]
        have : ",\n".toList.length = 2 := rfl
        omega

theorem reads_value_array {behind : Text} {values : List Value} (depth : Nat)
    (opens : emptyLines.Reads text () behind)
    (turns : Turns (element? (value depth)) behind values rest) :
    (value (depth + 1)).Reads ('[' :: text) (.array values) rest := by
  have read : (elements (value depth)).Reads text values rest := by
    rw [elements_eq]
    exact opens.bind turns.many
  unfold value
  exact (reads_peek _).bind ((reads_char '[' text).bind (read.bind (.pure _ _)))

/-- A list of strings is read as what was written. -/
theorem reads_writeStrings (depth : Nat) (texts : List Text) (rest : Text) :
    (value (depth + 1)).Reads (writeStrings texts ++ rest) (.array (texts.map .string)) rest := by
  have stops := reads_element_none (value depth) rest
  match texts with
  | [] =>
      have solid : Solid (']' :: rest) := .cons (by decide) rest
      exact reads_value_array depth (reads_emptyLines_none solid) (.stop stops)
  | [text] =>
      have ends : ∀ c ∈ (']' :: rest).head?, c ≠ '"' ∧ c ≠ '\'' := by simp
      have string := reads_writeString text ends depth
      have element := reads_element_last (writeString_ne_bracket text _) string
      have something : writeString text ≠ [] := by
        obtain ⟨mark, behind, written, -⟩ := writeString_eq_cons text
        rw [written]
        exact List.cons_ne_nil mark behind
      have shorter : (']' :: rest).length < (writeString text ++ ']' :: rest).length := by
        rw [List.length_append]
        exact Nat.lt_add_of_pos_left (List.length_pos_iff.mpr something)
      have array := reads_value_array depth (reads_emptyLines_none (solid_writeString text _))
        (.more element shorter (.stop stops))
      simpa [writeStrings] using array
  | first :: second :: texts =>
      obtain ⟨blanks, behind, written, all, solid, turns⟩ :=
        exists_turns_items depth (first :: second :: texts) rest
      have array := reads_value_array depth (reads_emptyLines 1 all solid) turns
      have several : writeStrings (first :: second :: texts) =
          "[\n".toList ++ (first :: second :: texts).flatMap writeItem ++ [']'] := rfl
      rw [← written] at array
      rw [several, List.append_assoc, List.append_assoc]
      exact array

end LineShell.Toml
