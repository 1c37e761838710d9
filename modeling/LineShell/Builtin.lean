import LineShell.Git.Backend
import LineShell.Sink

namespace LineShell

/-! Built-in commands.

A built-in is described by a manual and runs on an occasion, which holds its
arguments and what it may report on. Built-ins are registered by name; a new one
replaces one of the same name.
-/

structure BuiltinOption where
  name : Text
  description : Text
deriving DecidableEq, Repr

/-- What is known about a built-in without running it. -/
structure Manual where
  name : Text
  description : Text
  options : List BuiltinOption
deriving DecidableEq, Repr

namespace Manual

def optionNames (manual : Manual) : List Text := manual.options.map (·.name)

def usage (manual : Manual) : Text :=
  "usage: ".toList ++ manual.name ++
    (manual.options.flatMap fun option => " [".toList ++ option.name ++ [']']) ++
    manual.options.flatMap fun option =>
      "\n    ".toList ++ option.name.padRight 12 ++ option.description

/-- The arguments that are no option, in order. -/
def unknown (manual : Manual) (arguments : List Text) : List Text :=
  arguments.filter (!manual.optionNames.contains ·)

def complaint (manual : Manual) (unknown : List Text) : Text :=
  manual.name ++ ": unexpected argument(s): ".toList ++
    Text.join [' '] unknown ++ ['\n'] ++ manual.usage ++ ['\n']

end Manual

/-- What a built-in asks for when it is done. -/
inductive Control where
  | status (status : Status)
  /-- Nothing more is run. -/
  | exit
deriving DecidableEq, Repr

/-- The circumstances of one run. -/
structure Occasion where
  arguments : List Text
  gitNames : List Text
  manuals : List Manual
deriving DecidableEq, Repr

structure Builtin extends Manual where
  run : Occasion → Streams → Control × Streams

/-- The built-ins by name, in ascending order. -/
structure Registry where
  builtins : List Builtin

namespace Registry

def empty : Registry := ⟨[]⟩

/-- Puts a built-in in its place, in place of one of the same name. -/
def insertInto (builtin : Builtin) : List Builtin → List Builtin
  | [] => [builtin]
  | head :: rest =>
      if builtin.name < head.name then builtin :: head :: rest
      else if builtin.name = head.name then builtin :: rest
      else head :: insertInto builtin rest

def register (builtin : Builtin) (registry : Registry) : Registry :=
  ⟨insertInto builtin registry.builtins⟩

def get? (registry : Registry) (name : Text) : Option Builtin :=
  registry.builtins.find? (·.name = name)

def names (registry : Registry) : List Text := registry.builtins.map (·.name)

def manuals (registry : Registry) : List Manual :=
  registry.builtins.map Builtin.toManual

end Registry

end LineShell
