import LineShell.Builtin
import LineShell.Git.Queries
import LineShell.NameSet

namespace LineShell

/-! The command names that a shell knows.

Names of built-ins and of git commands are kept apart, since a name may be both.
The git names are asked for anew on every refresh; nothing of an earlier answer
stays, but names configured in addition are always among them.
-/

structure Catalog where
  builtin : NameSet
  git : NameSet
  /-- Names that count as git commands whatever git lists. -/
  extra : List Text

namespace Catalog

def ofLists (builtin git : List Text) : Catalog :=
  ⟨.ofList builtin, .ofList git, []⟩

def isBuiltin (catalog : Catalog) (name : Text) : Bool := catalog.builtin.contains name

def isGit (catalog : Catalog) (name : Text) : Bool := catalog.git.contains name

def isCommand (catalog : Catalog) (name : Text) : Bool :=
  catalog.isBuiltin name || catalog.isGit name

def names (catalog : Catalog) : List Text :=
  (catalog.builtin.union catalog.git).toList

section

variable {catalog : Catalog} {name : Text}

theorem isBuiltin_iff : catalog.isBuiltin name = true ↔ name ∈ catalog.builtin.toList :=
  List.contains_iff_mem

theorem isGit_iff : catalog.isGit name = true ↔ name ∈ catalog.git.toList :=
  List.contains_iff_mem

theorem mem_names_iff : name ∈ catalog.names ↔
    name ∈ catalog.builtin.toList ∨ name ∈ catalog.git.toList := by
  rw [names, NameSet.union, NameSet.mem_toList_ofList, List.mem_append]

/-- The names are the commands. -/
theorem mem_names_iff_isCommand : name ∈ catalog.names ↔ catalog.isCommand name = true := by
  rw [mem_names_iff, isCommand, Bool.or_eq_true, isBuiltin_iff, isGit_iff]

end

/-- The names to use for git, given what it listed: the configured ones if it
listed none or could not be asked, which is logged. -/
def chooseNames (fallback : List Text) (listed : Except Text (List Text))
    (journal : Journal) : List Text × Journal :=
  match listed with
  | .ok [] =>
      (fallback, journal.log .warn .catalog
        "git listed no commands, using fallback list".toList)
  | .ok names => (names, journal)
  | .error reason =>
      (fallback, journal.log .warn .catalog
        ("could not list git commands (".toList ++ reason ++
          "), using fallback list".toList))

def refresh (git : Git.Backend) (fallback : List Text) (catalog : Catalog)
    (journal : Journal) : Catalog × Journal :=
  let (listed, journal) := git.listCommands journal
  let (names, journal) := chooseNames fallback listed journal
  let catalog := { catalog with git := NameSet.ofList (names ++ catalog.extra) }
  (catalog, journal.log .debug .catalog
    ("catalog holds ".toList ++ Text.ofNat catalog.git.size ++
      " git commands".toList))

/-- The names of the registered built-ins, and git's commands. -/
def load (git : Git.Backend) (registry : Registry) (fallback extra : List Text)
    (journal : Journal) : Catalog × Journal :=
  refresh git fallback ⟨.ofList registry.names, .empty, extra⟩ journal

end Catalog

end LineShell
