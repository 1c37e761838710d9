import LineShell.Toml.Date
import LineShell.Toml.Value

namespace LineShell.Toml

open Reader

/-! Reading documents.

A document is a root table followed by sections, each under a header that says
where its table belongs. What is written twice or does not fit together is
refused, as is everything nested too deeply.
-/

/-- No more tables and arrays than these may be open at a time, and no key may
have more parts. -/
def deepest : Nat := 79

/-! Keys and values. -/

def keyPart : Reader Text := do
  match ← peek? with
  | some '"' =>
      char '"'
      shortString .double
  | some '\'' =>
      char '\''
      shortString .single
  | _ =>
      match ← takeWhile isBareKeyChar with
      | [] => failure
      | part => return part

/-- A key in parts with dots between them: the path to its table, and its last
part. -/
def key : Reader (List Text × Text) := do
  spaces
  let first ← keyPart
  spaces
  let others ← many do
    if ← taken ['.'] then
      spaces
      let part ← keyPart
      spaces
      return some part
    else return none
  if deepest ≤ others.length then failure
  let parts := first :: others
  return (parts.dropLast, parts.getLast?.getD first)

/-- The characters of numbers, dates and the names of values. -/
def isScalarChar (c : Char) : Bool :=
  isBareKeyChar c || c = '+' || c = '.' || c = ':'

/-- A value that is not quoted and holds no others. A day and a time may have
one space between them instead of a letter. -/
def scalar : Reader Value := do
  let written ← takeWhile isScalarChar
  if written = "true".toList then return .boolean true
  else if written = "false".toList then return .boolean false
  else if Number.isInteger written || Number.isFraction written then
    return .number written
  else if Date.isDate written then
    match ← get with
    | ' ' :: c :: _ =>
        if Date.isDay written && c.isDigit then
          let _ ← next
          let time ← takeWhile isScalarChar
          if Date.isZonedTime time then return .date (written ++ [' '] ++ time)
          else failure
        else return .date written
    | _ => return .date written
  else failure

/-- Values with commas between them and at most one after the last, up to the
closing bracket. -/
def elements (value : Reader Value) : Reader (List Value) := do
  emptyLines
  let values ← many do
    if ← taken [']'] then return none
    let value ← value
    emptyLines
    if ← taken [','] then emptyLines
    else if (← peek?) ≠ some ']' then failure
    return some value
  return values

def field (value : Reader Value) : Reader Field := do
  let (path, name) ← key
  char '='
  spaces
  return { path, name, value := ← value }

/-- Keys and values with commas between them, up to the closing brace. -/
def fields (value : Reader Value) : Reader (List Field) := do
  spaces
  if ← taken ['\x7d'] then return []
  let first ← field value
  spaces
  let others ← many do
    if ← taken [','] then
      let other ← field value
      spaces
      return some other
    else return none
  char '\x7d'
  return first :: others

/-- A value, with at most so many arrays and tables open within it. -/
def value (depth : Nat) : Reader Value := do
  match ← peek? with
  | some '"' => return .string (← quotedString .double)
  | some '\'' => return .string (← quotedString .single)
  | some '[' =>
      match depth with
      | 0 => failure
      | depth + 1 =>
          char '['
          return .array (← elements (value depth))
  | some '\x7b' =>
      match depth with
      | 0 => failure
      | depth + 1 =>
          char '\x7b'
          match Entries.assignAll [] (← fields (value depth)) with
          | some entries => return .table .inline entries
          | none => failure
  | _ => scalar

/-! Sections. -/

/-- Fields on lines of their own, up to the next header or the end. -/
def fieldLines : Reader (List Field) :=
  many do
    emptyLines
    match ← peek? with
    | none | some '[' => return none
    | some _ =>
        let field ← field (value deepest)
        lineRest
        return some field

/-- A section, if there is one more. -/
def section? : Reader (Option Section) := do
  if ← taken ['['] then
    let shared ← taken ['[']
    let (path, name) ← key
    char ']'
    if shared then char ']'
    lineRest
    let fields ← fieldLines
    return some { kind := if shared then .element else .table, path, name, fields }
  else return none

/-- The fields of the root table, and the sections. A byte order mark may stand
in front. -/
def document : Reader (List Field × List Section) := do
  let _ ← taken ['\uFEFF']
  let fields ← fieldLines
  let sections ← many section?
  endOfText
  return (fields, sections)

/-- The root table of a document, if it is one. -/
def read? (text : Text) : Option Entries := do
  let ((fields, sections), _) ← document text
  sections.foldlM Entries.addSection (← Entries.assignAll [] fields)

end LineShell.Toml
