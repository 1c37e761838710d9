import LineShell.Distinct
import LineShell.Text.Blank
import LineShell.Text.Lines

namespace LineShell.Git

/-! The options that a short help page lists.

A line that begins with a dash after its indentation lists spellings of one
option, with a comma and a space between them; two spaces in a row begin the
description. `--[no-]name` stands for two spellings.
-/

namespace HelpPage

/-- A character that may stand in the name of a long option. -/
def isNameChar (c : Char) : Bool := c.isAlphanum || c = '-'

def name (text : Text) : Text := text.takeWhile isNameChar

/-- The beginning of an option that can be negated. -/
def negatable : Text := "--[no-]".toList

def dashes : Text := ['-', '-']

/-- The options that one spelling stands for, without their arguments. -/
def expand (spelling : Text) : List Text :=
  match Text.afterLead? negatable spelling with
  | some rest =>
      if (name rest).isEmpty then []
      else [dashes ++ name rest, dashes ++ "no-".toList ++ name rest]
  | none =>
      match Text.afterLead? dashes spelling with
      | some rest => if (name rest).isEmpty then [] else [dashes ++ name rest]
      | none =>
          match spelling with
          | '-' :: c :: _ => if c.isAlphanum then [['-', c]] else []
          | _ => []

/-- The spellings that a line lists. -/
def spellings (line : Text) : List Text :=
  let line := line.trimStart
  if line.head? = some '-' then
    (Text.splitOn [',', ' '] (Text.before [' ', ' '] line)).map Text.trim
  else []

/-- The options of one line, also those seen before. -/
def lineOptions (line : Text) : List Text := (spellings line).flatMap expand

/-- The options of a page, in the order in which they are first listed. -/
def options (page : Text) : List Text := Distinct.extend [] (page.lines.flatMap lineOptions)

def isLong (option : Text) : Bool := dashes.isPrefixOf option

def longOptions (page : Text) : List Text := (options page).filter isLong

end HelpPage

end LineShell.Git
