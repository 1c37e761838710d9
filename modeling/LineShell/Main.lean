import LineShell.CommandLine
import Std.Time.Format

/-! The program.

This is where the system is spoken to; what is said is decided elsewhere. There
is no way of starting other programs here, so that git is a program that is not
there.
-/

namespace LineShell.Main

structure OpenLog where
  file : LogFile
  handle : IO.FS.Handle

def timestamp : IO String := do
  let now := Std.Time.DateTime.ofTimestamp (← Std.Time.Timestamp.now)
    Std.Time.TimeZone.ZoneRules.UTC
  return now.format "uuuu-MM-dd'T'HH:mm:ss.SSSSSSSSS'Z'"

/-- Opens the log file. If that fails nothing is logged. -/
def openLog (file? : Option LogFile) : IO (Option OpenLog) := do
  let some file := file? | return none
  try
    IO.FS.createDirAll (String.ofList file.directory)
  catch _ => pure ()
  try
    return some ⟨file, ← IO.FS.Handle.mk (String.ofList file.path) .append⟩
  catch _ => return none

/-- Writes out what a journal has gathered, which leaves it without. -/
def emit (log : Option OpenLog) (journal : Journal) : IO Journal := do
  if let some log := log then
    for line in journal.records.filterMap log.file.line? do
      log.handle.putStr ((← timestamp) ++ " " ++ String.ofList line ++ "\n")
    log.handle.flush
  let out ← IO.getStdout
  out.write journal.streams.out.written.toByteArray
  out.flush
  (← IO.getStderr).write journal.streams.err.written.toByteArray
  return { journal with records := [], streams := .unbounded }

/-- The next line with its ending; empty at the end of the input. -/
partial def readLine (input : IO.FS.Stream) (start : ByteArray) : IO ByteArray := do
  let next ← input.read 1
  if next.isEmpty then return start
  let start := start ++ next
  if next.toList = [0x0A] then return start
  readLine input start

partial def converse (shell : Shell) (interactive : Bool) (log : Option OpenLog)
    (last : Status) (journal : Journal) : IO Status := do
  let journal ← emit log (shell.greet interactive journal)
  let line ← readLine (← IO.getStdin) .empty
  if line.isEmpty then return last
  match shell.turn (Lines.withoutEnding 0x0A 0x0D line.toList) journal with
  | (.over status, journal) =>
      let _ ← emit log journal
      return status
  | (.next last, journal) => converse shell interactive log last journal

def readOverlay (home : Text) : IO (Option Bytes) := do
  try
    let bytes ← IO.FS.readBinFile (String.ofList (CommandLine.overlayPath home))
    return some bytes.toList
  catch _ => return none

def serve (request : Request) (surroundings : Surroundings) : IO Status := do
  match request with
  | .perform .serve =>
      let (config, journal) :=
        CommandLine.configure surroundings.objection surroundings.overlay
          (.start .unbounded)
      let log ← openLog (config.log? surroundings.home)
      let (shell, journal) :=
        CommandLine.openShell config surroundings.programs journal
      converse shell surroundings.interactive log 0 journal
  | request =>
      let report := CommandLine.run request surroundings
      let _ ← emit (← openLog report.log) report.journal
      return report.status

end LineShell.Main

open LineShell in
def main (arguments : List String) : IO UInt32 := do
  let home := ((← IO.getEnv "HOME").getD "").toList
  let surroundings : Surroundings := {
    home
    overlay := ← Main.readOverlay home
    objection := fun _ => "it is not understood".toList
    interactive := ← (← IO.getStdin).isTty
    input := []
    programs := fun _ => none }
  let request := Request.ofArguments (arguments.map String.toList)
  return (← Main.serve request surroundings).toUInt32
