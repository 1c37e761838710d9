import LineShell.Proofs.Itemizing

namespace LineShell.Toml

open Reader

/-! Tables of strings that are written and read again.

A table is a header with a line for each field. A document of such tables is read as what they
were written for, if no name is written twice.
-/

/-- A name that may stand as a key without quotes. -/
def isBare (name : Text) : Bool := !name.isEmpty && name.all isBareKeyChar

theorem isBare_iff {name : Text} :
    isBare name = true ↔ name ≠ [] ∧ ∀ c ∈ name, isBareKeyChar c = true := by
  simp [isBare]

theorem head_of_isBare {name : Text} (bare : isBare name = true) (rest : Text) :
    ∀ c ∈ (name ++ rest).head?, isBareKeyChar c = true := by
  obtain ⟨something, letters⟩ := isBare_iff.mp bare
  obtain ⟨first, others, rfl⟩ := List.exists_cons_of_ne_nil something
  intro c head
  obtain rfl := Option.some.inj head
  exact letters _ (.head _)

theorem isSpace_of_isBareKeyChar {c : Char} (bare : isBareKeyChar c = true) :
    isSpace c = false := by
  rw [isSpace, Bool.or_eq_false_iff, decide_eq_false_iff_not, decide_eq_false_iff_not]
  constructor <;> rintro rfl <;> exact absurd bare (by decide)

theorem ne_of_isBareKeyChar {c : Char} (bare : isBareKeyChar c = true) :
    c ∉ ['"', '\'', '[', '#', '\n', '\r'] := by
  rintro member
  simp only [List.mem_cons, List.not_mem_nil, or_false] at member
  rcases member with rfl | rfl | rfl | rfl | rfl | rfl <;> exact absurd bare (by decide)

theorem solid_of_isBare {name : Text} (bare : isBare name = true) (rest : Text) :
    Solid (name ++ rest) := by
  intro c head
  have letter := head_of_isBare bare rest c head
  have other := ne_of_isBareKeyChar letter
  simp only [List.mem_cons, List.not_mem_nil, or_false, not_or] at other
  obtain ⟨-, -, -, comment, newline, returned⟩ := other
  exact ⟨isSpace_of_isBareKeyChar letter, comment, newline, returned⟩

section

variable {name rest blanks : Text}

theorem reads_keyPart (bare : isBare name = true)
    (ends : ∀ c ∈ rest.head?, isBareKeyChar c = false) :
    keyPart.Reads (name ++ rest) name rest := by
  refine (reads_peek _).bind ?_
  split
  · next head => exact absurd (by decide) (ne_of_isBareKeyChar (head_of_isBare bare rest _ head))
  · next head => exact absurd (by decide) (ne_of_isBareKeyChar (head_of_isBare bare rest _ head))
  · obtain ⟨something, letters⟩ := isBare_iff.mp bare
    refine (reads_takeWhile letters ends).bind ?_
    obtain ⟨first, others, rfl⟩ := List.exists_cons_of_ne_nil something
    exact .pure _ rest

/-- One more part of a key. -/
def dottedPart? : Reader (Option Text) := do
  if ← taken ['.'] then
    spaces
    let part ← keyPart
    spaces
    return some part
  else return none

theorem reads_dottedPart_none (undotted : ¬ ['.'] <+: rest) :
    dottedPart?.Reads rest none rest :=
  (reads_taken_other undotted).bind (.pure none rest)

/-- What may follow a key: neither more of it nor a dot. -/
def EndsKey (rest : Text) : Prop :=
  ∀ c ∈ rest.head?, isBareKeyChar c = false ∧ isSpace c = false ∧ c ≠ '.'

theorem reads_key (bare : isBare name = true) (all : ∀ c ∈ blanks, isSpace c = true)
    (ends : EndsKey rest) : key.Reads (name ++ (blanks ++ rest)) ([], name) rest := by
  have start : ∀ c ∈ (name ++ (blanks ++ rest)).head?, isSpace c = false :=
    fun c head => isSpace_of_isBareKeyChar (head_of_isBare bare _ c head)
  have stops : ∀ c ∈ (blanks ++ rest).head?, isBareKeyChar c = false := by
    intro c head
    cases blanks with
    | nil => exact (ends c head).1
    | cons blank blanks =>
        obtain rfl := Option.some.inj head
        rw [← Bool.not_eq_true]
        intro bare
        exact Bool.false_ne_true ((isSpace_of_isBareKeyChar bare).symm.trans (all _ (.head _)))
  have undotted : ¬ ['.'] <+: rest := by
    rintro ⟨behind, rfl⟩
    exact (ends '.' rfl).2.2 rfl
  refine (reads_spaces_none start).bind ((reads_keyPart bare stops).bind ?_)
  refine (reads_spaces all fun c head => (ends c head).2.1).bind ?_
  refine (Turns.stop (reads_dottedPart_none undotted)).many.bind ?_
  rw [if_neg (by decide)]
  exact .pure _ rest

variable {item : Reader Value} {found : Value} {written : Text}

theorem reads_field (bare : isBare name = true) (solid : Solid (written ++ rest))
    (read : item.Reads (written ++ rest) found rest) :
    (field item).Reads (name ++ (" = ".toList ++ (written ++ rest))) ⟨[], name, found⟩ rest := by
  have ends : EndsKey ('=' :: ' ' :: (written ++ rest)) := by
    intro c head
    obtain rfl := Option.some.inj head
    decide
  have blank : ∀ c ∈ [' '], isSpace c = true := by simp [isSpace]
  refine (reads_key bare blank ends).bind ?_
  refine (reads_char '=' _).bind ?_
  refine (reads_spaces blank fun c head => (solid c head).1).bind ?_
  exact read.bind (.pure _ rest)

theorem reads_lineRest (rest : Text) : lineRest.Reads ('\n' :: rest) () rest := by
  refine (reads_spaces_none (by simp [isSpace])).bind ?_
  have uncommented : comment?.Reads ('\n' :: rest) () ('\n' :: rest) :=
    (reads_taken_other (by simp)).bind (.pure () _)
  exact uncommented.bind ((reads_peek _).bind (reads_newline rest))

end

/-- A field that is written on a line of its own. -/
structure Line where
  name : Text
  written : Text
  value : Value
  bare : isBare name = true
  solid : ∀ rest, Solid (written ++ '\n' :: rest)
  reads : ∀ rest, (Toml.value deepest).Reads (written ++ '\n' :: rest) value ('\n' :: rest)

namespace Line

def text (line : Line) : Text := writeField line.name line.written

def field (line : Line) : Field := ⟨[], line.name, line.value⟩

def string (name : Text) (bare : isBare name = true) (text : Text) : Line where
  name := name
  written := writeString text
  value := .string text
  bare := bare
  solid rest := solid_writeString text _
  reads rest := reads_writeString text (by simp) deepest

def strings (name : Text) (bare : isBare name = true) (texts : List Text) : Line where
  name := name
  written := writeStrings texts
  value := .array (texts.map .string)
  bare := bare
  solid rest := by
    match texts with
    | [] | [_] | _ :: _ :: _ => exact .cons (by decide) _
  reads rest := reads_writeStrings _ texts _

theorem text_append (line : Line) (rest : Text) : line.text ++ rest =
    line.name ++ (" = ".toList ++ (line.written ++ '\n' :: rest)) := by
  simp [text, writeField]

end Line

variable {rest : Text}

def fieldLine? : Reader (Option Field) := do
  emptyLines
  match ← peek? with
  | none | some '[' => return none
  | some _ =>
      let field ← field (value deepest)
      lineRest
      return some field

theorem fieldLines_eq : fieldLines = many fieldLine? := rfl

/-- Nothing follows but perhaps one more header. -/
def Headed (rest : Text) : Prop := ∀ c ∈ rest.head?, c = '['

theorem Headed.solid (headed : Headed rest) : Solid rest := by
  intro c head
  rw [headed c head]
  decide

theorem reads_fieldLine_none (gap : Nat) (headed : Headed rest) :
    fieldLine?.Reads (List.replicate gap '\n' ++ rest) none rest := by
  refine (reads_emptyLines gap (List.forall_mem_nil _) headed.solid).bind ?_
  refine (reads_peek rest).bind ?_
  cases rest with
  | nil => exact .pure none []
  | cons c rest =>
      obtain rfl := headed c rfl
      exact .pure none _

theorem reads_fieldLine (line : Line) (rest : Text) :
    fieldLine?.Reads (line.text ++ rest) (some line.field) rest := by
  rw [line.text_append]
  refine (reads_emptyLines_none (solid_of_isBare line.bare _)).bind ((reads_peek _).bind ?_)
  split
  · next head =>
      have empty := List.append_eq_nil_iff.mp (List.head?_eq_none_iff.mp head)
      exact absurd empty.1 (isBare_iff.mp line.bare).1
  · next head =>
      have letter := head_of_isBare line.bare _ '[' head
      exact absurd letter (by decide)
  · refine (reads_field line.bare (line.solid rest) (line.reads rest)).bind ?_
    exact (reads_lineRest rest).bind (.pure _ rest)

/-- A header and the lines under it, with empty lines behind them. -/
structure Table where
  name : Text
  lines : List Line
  gap : Nat
  bare : isBare name = true
  distinct : (lines.map Line.name).Nodup

namespace Table

def text (table : Table) : Text :=
  writeTable table.name (table.lines.map fun line => (line.name, line.written)) ++
    List.replicate table.gap '\n'

def part (table : Table) : Section := ⟨.table, [], table.name, table.lines.map Line.field⟩

def entries (table : Table) : Entries := table.lines.map fun line => (line.name, line.value)

theorem text_append (table : Table) (rest : Text) : table.text ++ rest =
    '[' :: (table.name ++ (']' :: '\n' :: (table.lines.flatMap Line.text ++
      (List.replicate table.gap '\n' ++ rest)))) := by
  have line_text : Line.text = fun line => writeField line.name line.written := rfl
  simp [text, writeTable, List.flatMap_map, line_text]

end Table

theorem reads_fieldLines (lines : List Line) (gap : Nat) (headed : Headed rest) :
    fieldLines.Reads (lines.flatMap Line.text ++ (List.replicate gap '\n' ++ rest))
      (lines.map Line.field) rest := by
  have something (line : Line) : line.text ≠ [] := by
    intro empty
    have written := line.text_append []
    simp [empty] at written
  have pieces := Pieces.flatMap reads_fieldLine something lines
  rw [fieldLines_eq]
  exact (pieces.turns (reads_fieldLine_none gap headed)).many

theorem reads_section (table : Table) (headed : Headed rest) :
    Reads section? (table.text ++ rest) (some table.part) rest := by
  rw [table.text_append]
  have single : ¬ ['['] <+: table.name ++ (']' :: '\n' :: (table.lines.flatMap Line.text ++
      (List.replicate table.gap '\n' ++ rest))) := by
    rintro ⟨behind, same⟩
    have letter := head_of_isBare table.bare _ '[' (by rw [← same]; rfl)
    exact absurd letter (by decide)
  have ends : EndsKey (']' :: '\n' :: (table.lines.flatMap Line.text ++
      (List.replicate table.gap '\n' ++ rest))) := by
    intro c head
    obtain rfl := Option.some.inj head
    decide
  refine (reads_taken ['['] _).bind ?_
  refine (reads_taken_other single).bind ?_
  refine (reads_key table.bare (List.forall_mem_nil _) ends).bind ?_
  refine (reads_char ']' _).bind ?_
  refine (reads_lineRest _).bind ?_
  exact (reads_fieldLines table.lines table.gap headed).bind (.pure _ rest)

theorem headed_tables (tables : List Table) : Headed (tables.flatMap Table.text) := by
  cases tables with
  | nil => exact fun c head => nomatch head
  | cons table tables =>
      intro c head
      rw [List.flatMap_cons, table.text_append] at head
      exact (Option.some.inj head).symm

theorem turns_sections (tables : List Table) :
    Turns section? (tables.flatMap Table.text) (tables.map Table.part) [] := by
  induction tables with
  | nil => exact .stop rfl
  | cons table tables ih =>
      refine .more (reads_section table (headed_tables tables)) ?_ ih
      have shorter : 0 < table.text.length := by
        have written := table.text_append []
        rw [List.append_nil] at written
        rw [written]
        exact Nat.succ_pos _
      rw [List.flatMap_cons, List.length_append]
      exact Nat.lt_add_of_pos_left shorter

theorem reads_document (tables : List Table) :
    document.Reads (tables.flatMap Table.text) ([], tables.map Table.part) [] := by
  have unmarked : ¬ ['\uFEFF'] <+: tables.flatMap Table.text := by
    rintro ⟨behind, same⟩
    have bracket := headed_tables tables '\uFEFF' (by rw [← same]; rfl)
    exact absurd bracket (by decide)
  have noFields := reads_fieldLines [] 0 (headed_tables tables)
  refine (reads_taken_other unmarked).bind (noFields.bind ?_)
  exact (turns_sections tables).many.bind (.pure _ [])

namespace Entries

variable {entries : Entries}

/-- What is added under new names, one after the other, stands there in order. -/
theorem foldlM_add {α : Type} {change : Entries → α → Option Entries} {name : α → Text}
    {value : α → Value} (sources : List α)
    (adds : ∀ source (entries : Entries), entries.lookup (name source) = none →
      change entries source = some (entries.add (name source) (value source)))
    (distinct : (entries.map Prod.fst ++ sources.map name).Nodup) :
    sources.foldlM change entries =
      some (entries ++ sources.map fun source => (name source, value source)) := by
  induction sources generalizing entries with
  | nil => simp
  | cons source sources ih =>
      have fresh : entries.lookup (name source) = none := by
        rw [List.lookup_eq_none_iff]
        intro entry member
        have other := (List.nodup_append.mp distinct).2.2 entry.1
          (List.mem_map_of_mem member) (name source) (List.mem_cons_self)
        simp [Ne.symm other]
      have distinct' :
          ((entries.add (name source) (value source)).map Prod.fst ++ sources.map name).Nodup := by
        simpa [add, List.append_assoc] using distinct
      rw [List.foldlM_cons, adds source entries fresh]
      refine (ih distinct').trans ?_
      rw [add, List.append_assoc, List.map_cons, List.singleton_append]

theorem assign_line (line : Line) (fresh : entries.lookup line.name = none) :
    entries.assign line.field = some (entries.add line.name line.value) := by
  simp [assign, changeAt, Line.field, fresh]

theorem assignAll_lines (table : Table) :
    assignAll [] (table.lines.map Line.field) = some table.entries := by
  rw [assignAll, List.foldlM_map]
  exact foldlM_add table.lines (fun line _ fresh => assign_line line fresh) table.distinct

theorem addSection_table (table : Table) (fresh : entries.lookup table.name = none) :
    entries.addSection table.part =
      some (entries.add table.name (.table .header table.entries)) := by
  have assigned := assignAll_lines table
  simp [addSection, changeAt, Table.part, fresh, assigned]

end Entries

/-- What is read of a document of tables is what the tables hold. -/
theorem read?_tables (tables : List Table) (distinct : (tables.map Table.name).Nodup) :
    read? (tables.flatMap Table.text) =
      some (tables.map fun table => (table.name, .table .header table.entries)) := by
  have document := reads_document tables
  rw [Reads] at document
  have added : (tables.map Table.part).foldlM Entries.addSection [] =
      some (tables.map fun table => (table.name, .table .header table.entries)) := by
    rw [List.foldlM_map]
    exact Entries.foldlM_add tables (fun table _ fresh => Entries.addSection_table table fresh)
      distinct
  simp [read?, document, Entries.assignAll, added]

end LineShell.Toml
