import LineShell.Builtin.Standard
import LineShell.Completion
import LineShell.Config

namespace LineShell

/-! Shells.

A shell is what lines are run and completed with. It asks git for its commands
when it is loaded and when it is told to; a change of its configuration or its
git shows in the catalog only then, and the extra names stay those of the load.
-/

structure Shell extends Tools where
  config : Config

namespace Shell

/-- A shell with the standard built-ins. -/
def load (config : Config) (git : Git.Backend) (journal : Journal) : Shell × Journal :=
  let registry := Registry.standard
  let (catalog, journal) :=
    Catalog.load git registry config.fallbackCommands config.extraCommands journal
  ({ catalog, registry, git, config }, journal)

/-- The shell with git's commands asked for anew. -/
def refresh (shell : Shell) (journal : Journal) : Shell × Journal :=
  let (catalog, journal) :=
    shell.catalog.refresh shell.git shell.config.fallbackCommands journal
  ({ shell with catalog }, journal)

/-- The shell with one more built-in, which its catalog does not list. -/
def register (shell : Shell) (builtin : Builtin) : Shell :=
  { shell with registry := shell.registry.register builtin }

end Shell

end LineShell
