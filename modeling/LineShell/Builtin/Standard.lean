import LineShell.Builtin

namespace LineShell

/-! The standard built-ins: `:exit` leaves the shell and `:help` lists what can
be run. Both refuse arguments that are not among their options, and print their
usage on request.
-/

namespace Builtin

def helpFlag : Text := "--help".toList

def allFlag : Text := "--all".toList

/-- The status after output: failure if some of it was lost. -/
def writtenStatus (written : Bool) : Control := .status (if written then 0 else 1)

/-- Refuses the arguments. That the complaint may not fit changes nothing. -/
def refuse (manual : Manual) (unknown : List Text) (streams : Streams) :
    Control × Streams :=
  (.status 2, { streams with err := (streams.err.write (manual.complaint unknown)).1 })

def print (texts : List Text) (streams : Streams) : Control × Streams :=
  let (out, written) := streams.out.writeAll texts
  (writtenStatus written, { streams with out })

def exitManual : Manual where
  name := ":exit".toList
  description := "leave the shell".toList
  options := [⟨helpFlag, "show usage instead of exiting".toList⟩]

/-- Asks to exit, unless it is asked for its usage. -/
def exit : Builtin where
  toManual := exitManual
  run occasion streams :=
    match exitManual.unknown occasion.arguments with
    | [] =>
        if occasion.arguments.contains helpFlag then
          print [exitManual.usage ++ ['\n']] streams
        else (.exit, streams)
    | unknown => refuse exitManual unknown streams

def helpManual : Manual where
  name := ":help".toList
  description := "list built-in commands".toList
  options :=
    [⟨allFlag, "also list git commands".toList⟩, ⟨helpFlag, "show usage".toList⟩]

def listing (occasion : Occasion) : List Text :=
  "Built-in commands:\n".toList ::
    (occasion.manuals.map fun manual =>
      "    ".toList ++ manual.name.padRight 10 ++ manual.description ++ ['\n']) ++
    ["Any other command runs as `git <command>`.\n".toList] ++
    if occasion.arguments.contains allFlag then
      "\nGit commands:\n".toList ::
        occasion.gitNames.map fun name => "    ".toList ++ name ++ ['\n']
    else []

/-- Lists what can be run, unless it is asked for its usage. -/
def help : Builtin where
  toManual := helpManual
  run occasion streams :=
    match helpManual.unknown occasion.arguments with
    | [] =>
        if occasion.arguments.contains helpFlag then
          print [helpManual.usage ++ ['\n']] streams
        else print (listing occasion) streams
    | unknown => refuse helpManual unknown streams

end Builtin

def Registry.standard : Registry :=
  (Registry.empty.register Builtin.exit).register Builtin.help

end LineShell
