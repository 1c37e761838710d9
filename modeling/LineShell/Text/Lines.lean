import LineShell.Text.Basic

namespace LineShell

/-! Lines of a text or of a byte sequence.

A newline ends a line and is not part of it, nor is one carriage return just
before the newline. A last line without a newline counts, and then keeps its
carriage return; nothing after a final newline does not count.
-/

namespace Lines

variable {α : Type} [DecidableEq α]

/-- The input cut after every newline. -/
def pieces (newline : α) : List α → List (List α)
  | [] => []
  | c :: rest =>
      if c = newline then [c] :: pieces newline rest
      else
        match pieces newline rest with
        | [] => [[c]]
        | piece :: more => (c :: piece) :: more

/-- A piece without its line ending. -/
def withoutEnding (newline carriageReturn : α) (piece : List α) : List α :=
  match piece.reverse with
  | [] => []
  | last :: body =>
      if last = newline then
        match body with
        | [] => []
        | c :: shorter =>
            if c = carriageReturn then shorter.reverse else body.reverse
      else piece

def split (newline carriageReturn : α) (input : List α) : List (List α) :=
  (pieces newline input).map (withoutEnding newline carriageReturn)

end Lines

def Text.lines (text : Text) : List Text := Lines.split '\n' '\r' text

end LineShell
