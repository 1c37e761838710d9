import LineShell.Config
import LineShell.Distinct
import LineShell.Toml.Document

namespace LineShell

/-! What a user's file changes in a configuration.

A file states what it changes and is silent on the rest. It is taken as a whole
or, if anything in it is not as expected, not at all; keys with no meaning here
do not matter. A group of settings may be written as a table or as an array of
its values in order. A date in place of a group states nothing.
-/

structure ListChange where
  add : List Text
  remove : List Text
deriving DecidableEq, Repr

structure Overlay where
  git : Option Text
  logLevel : Option Text
  logFile : Option Text
  /-- The lists stated are the lists, whatever they were before. -/
  replace : Bool
  fallbackCommands : ListChange
  extraCommands : ListChange
deriving DecidableEq, Repr

namespace ListChange

def silent : ListChange := ⟨[], []⟩

/-- The list after the change: without what is removed, and with what is added
unless it is there. -/
def apply (change : ListChange) (replace : Bool) (names : List Text) : List Text :=
  if replace then change.add
  else Distinct.extend (names.filter (!change.remove.contains ·)) change.add

end ListChange

namespace Overlay

def silent : Overlay := ⟨none, none, none, false, .silent, .silent⟩

def apply (overlay : Overlay) (config : Config) : Config where
  git := overlay.git.getD config.git
  logLevel := overlay.logLevel.getD config.logLevel
  logFile := overlay.logFile.getD config.logFile
  fallbackCommands :=
    overlay.fallbackCommands.apply overlay.replace config.fallbackCommands
  extraCommands := overlay.extraCommands.apply overlay.replace config.extraCommands

/-! Reading. -/

def text? : Toml.Value → Option Text
  | .string text => some text
  | _ => none

def boolean? : Toml.Value → Option Bool
  | .boolean value => some value
  | _ => none

def texts? : Toml.Value → Option (List Text)
  | .array values => values.mapM text?
  | _ => none

/-- The values of a group of settings, in the order of its keys. A date counts as
a table without any of the keys. -/
def group? (keys : List Text) : Toml.Value → Option (List (Option Toml.Value))
  | .table _ entries => some (keys.map fun key => entries.lookup key)
  | .array values => some ((List.range keys.length).map (values[·]?))
  | .date _ => some (keys.map fun _ => none)
  | _ => none

/-- What a value is read as, if there is one and it is as expected; `silence` if
there is none. -/
def readOr {α : Type} (silence : α) (read : Toml.Value → Option α) :
    Option Toml.Value → Option α
  | none => some silence
  | some value => read value

/-- The settings of the program and of the log. An array must state all three. -/
def settings? (overlay : Overlay) (value : Toml.Value) : Option Overlay := do
  let [git, logLevel, logFile] ←
    group? ["git".toList, "log_level".toList, "log_file".toList] value | failure
  let stated := fun value? => readOr none (fun value => some <$> text? value) value?
  if let .array values := value then
    if values.length < 3 then failure
  return { overlay with
    git := ← stated git
    logLevel := ← stated logLevel
    logFile := ← stated logFile }

def lists? (overlay : Overlay) (value : Toml.Value) : Option Overlay := do
  let [replace, fallback, extra, noFallback, noExtra] ←
    group? ["replace".toList, "fallback_commands".toList, "extra_commands".toList,
      "remove_fallback_commands".toList, "remove_extra_commands".toList] value
    | failure
  return { overlay with
    replace := ← readOr false boolean? replace
    fallbackCommands := ⟨← readOr [] texts? fallback, ← readOr [] texts? noFallback⟩
    extraCommands := ⟨← readOr [] texts? extra, ← readOr [] texts? noExtra⟩ }

def read? (document : Text) : Option Overlay := do
  let root ← Toml.read? document
  let overlay ← readOr silent (settings? silent) (root.lookup "settings".toList)
  readOr overlay (lists? overlay) (root.lookup "git".toList)

end Overlay

end LineShell
