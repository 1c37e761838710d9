import LineShell.Text.Basic

namespace LineShell.Toml

/-! TOML values.

A table remembers how it came about, because that decides what may still be
added to it. Numbers and dates are kept as they are written; nothing here
computes with them.
-/

/-- How a table came about. -/
inductive Origin where
  /-- By a header of its own, or as the document. -/
  | header
  /-- By standing on the way to another table's header. -/
  | implied
  /-- By standing on the way to a key. -/
  | dotted
  /-- Between braces. -/
  | inline
deriving DecidableEq, Repr

inductive Value where
  | string (text : Text)
  | boolean (value : Bool)
  | number (written : Text)
  | date (written : Text)
  | array (values : List Value)
  | table (origin : Origin) (entries : List (Text × Value))
  /-- Tables that share a header, in order. -/
  | tables (tables : List (List (Text × Value)))

/-- The keys of a table with their values. -/
abbrev Entries := List (Text × Value)

/-- A key as it is written, the path to its table apart, with its value. -/
structure Field where
  path : List Text
  name : Text
  value : Value

/-- What a header opens. -/
inductive SectionKind where
  | table
  /-- One more of the tables that share the header. -/
  | element

/-- A header, the path to its table apart, with the fields under it. -/
structure Section where
  kind : SectionKind
  path : List Text
  name : Text
  fields : List Field

namespace Entries

/-- Gives a key that is there another value. -/
def replace (key : Text) (value : Value) (entries : Entries) : Entries :=
  entries.map fun entry => if entry.1 = key then (key, value) else entry

/-- Adds a key that is not there yet. -/
def add (key : Text) (value : Value) (entries : Entries) : Entries :=
  entries ++ [(key, value)]

/-- Changes the table at the end of a path, which `change` may refuse. Tables
missing on the way are made; a table that is shared by a header stands for its
last one. On the way to a key, a table with a header of its own is closed. -/
def changeAt (onTheWay : Origin) (change : Origin → Entries → Option Entries) :
    List Text → Origin → Entries → Option Entries
  | [], origin, entries => change origin entries
  | key :: path, _, entries =>
      match entries.lookup key with
      | none => do
          let inner ← changeAt onTheWay change path onTheWay []
          return entries.add key (.table onTheWay inner)
      | some (.table .inline _) => none
      | some (.table origin inner) =>
          if onTheWay = .dotted ∧ origin = .header then none
          else do
            let inner ← changeAt onTheWay change path origin inner
            return entries.replace key (.table origin inner)
      | some (.tables tables) => do
          let last ← tables.getLast?
          let last ← changeAt onTheWay change path .header last
          return entries.replace key (.tables (tables.dropLast ++ [last]))
      | some _ => none

/-- Gives a new key a value. Only a key without a path may be added to the table
that is being written, and only one with a path to a table made by such. -/
def assign (entries : Entries) (field : Field) : Option Entries :=
  changeAt .dotted (fun origin entries =>
    if (origin == .dotted) == field.path.isEmpty then none
    else if (entries.lookup field.name).isSome then none
    else some (entries.add field.name field.value)) field.path .header entries

def assignAll (entries : Entries) (fields : List Field) : Option Entries :=
  fields.foldlM assign entries

/-- Adds the table of a section, or one more table to those under its header. A
table that only stood on the way to others so far may be written now. -/
def addSection (entries : Entries) (part : Section) : Option Entries :=
  changeAt .implied (fun _ parent =>
    match part.kind, parent.lookup part.name with
    | .table, none => do
        return parent.add part.name (.table .header (← assignAll [] part.fields))
    | .table, some (.table .implied inner) => do
        return parent.replace part.name
          (.table .header (← assignAll inner part.fields))
    | .element, none => do
        return parent.add part.name (.tables [← assignAll [] part.fields])
    | .element, some (.tables tables) => do
        return parent.replace part.name
          (.tables (tables ++ [← assignAll [] part.fields]))
    | _, _ => none) part.path .header entries

end Entries

end LineShell.Toml
