import LineShell.Shell

namespace LineShell

/-! Prompts. -/

namespace Prompt

/-- A count with the sign for what it counts, unless it is zero. -/
def counted (sign : Char) (count : Nat) : Text :=
  if count = 0 then [] else [' ', sign] ++ Text.ofNat count

def inRepository (branch : Option Text) (changes : Git.Changes) : Text :=
  "gitsh ".toList ++ branch.getD ['?'] ++ counted '+' changes.staged ++
    counted '~' changes.unstaged ++ "> ".toList

def outside : Text := "gitsh> ".toList

end Prompt

/-- The prompt of a shell, for which it asks git about the repository. -/
def Shell.prompt (shell : Shell) (journal : Journal) : Text × Journal :=
  let (isRepository, journal) := shell.git.isRepository journal
  if isRepository then
    let (branch, journal) := shell.git.branch journal
    let (changes, journal) := shell.git.changes journal
    (Prompt.inRepository branch changes, journal)
  else (Prompt.outside, journal)

end LineShell
