import LineShell.Text.Utf8

namespace LineShell

/-! Where output goes.

A sink may have room for only so many bytes. What no longer fits is lost, and
the write that lost it has failed, as has every later write of anything.
-/

structure Sink where
  written : Bytes
  /-- How many more bytes fit; no bound if absent. -/
  room : Option Nat
deriving DecidableEq, Repr

namespace Sink

def unbounded : Sink := ⟨[], none⟩

def bounded (room : Nat) : Sink := ⟨[], some room⟩

/-- Adds bytes as far as they fit, and answers whether they all did. -/
def writeBytes (sink : Sink) (bytes : Bytes) : Sink × Bool :=
  match sink.room with
  | none => (⟨sink.written ++ bytes, none⟩, true)
  | some room =>
      (⟨sink.written ++ bytes.take room, some (room - bytes.length)⟩,
        decide (bytes.length ≤ room))

def write (sink : Sink) (text : Text) : Sink × Bool :=
  sink.writeBytes (Utf8.encode text)

/-- Writes texts one after the other until one fails. -/
def writeAll (sink : Sink) : List Text → Sink × Bool
  | [] => (sink, true)
  | text :: texts =>
      match sink.write text with
      | (sink, true) => sink.writeAll texts
      | (sink, false) => (sink, false)

/-- Adds bytes that reach the destination by another way than through this
sink, so that its room does not matter. -/
def join (sink : Sink) (bytes : Bytes) : Sink :=
  { sink with written := sink.written ++ bytes }

end Sink

structure Streams where
  out : Sink
  err : Sink
deriving DecidableEq, Repr

def Streams.unbounded : Streams := ⟨.unbounded, .unbounded⟩

end LineShell
