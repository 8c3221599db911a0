import ForthMachine.Text.Quoted

/-!
# Lines of input

Programs read their input as a queue of named streams, line by line. Lines are numbered
from 1 in each stream, and a line's text loses any trailing carriage returns and line
feeds. A stream's last line counts even without a final line feed; an empty stream has
no lines.

A location prints as `name:line`, and a line as its location and its quoted text.

The main statement is `splitLines_append_newline`: a line feed ends the current line.
-/

namespace ForthMachine.Input

open ForthMachine.Text

/-- Where a line came from: the stream's name and the line's number in it. -/
structure Location where
  name : String
  line : Nat
  deriving DecidableEq, Repr

/-- A location as `name:line`. -/
def Location.text (l : Location) : String := l.name ++ ":" ++ toString l.line

/-- A line of input with its location. -/
structure Line where
  loc : Location
  text : Bytes

/-- A line as its location and quoted text. -/
def Line.show (l : Line) : Bytes := Bytes.ofString (l.loc.text ++ " ") ++ quote l.text

/-- A named stream of input. -/
structure Stream where
  name : String
  data : Bytes

/-- The pieces of a stream, each up to and including a line feed; a final piece without
one counts when it is not empty. -/
def splitLines (bs : Bytes) : List Bytes :=
  go bs []
where
  go : Bytes → Bytes → List Bytes
    | [], acc => if acc.isEmpty then [] else [acc.reverse]
    | b :: rest, acc =>
      if b = 0x0A then (b :: acc).reverse :: go rest [] else go rest (b :: acc)

/-- Text without its trailing carriage returns and line feeds. -/
def trimLineEnd (bs : Bytes) : Bytes :=
  (bs.reverse.dropWhile fun b => b = 0x0D || b = 0x0A).reverse

/-- The lines of one stream. -/
def Stream.lines (s : Stream) : List Line :=
  (splitLines s.data).zipIdx.map fun (piece, i) => ⟨⟨s.name, i + 1⟩, trimLineEnd piece⟩

/-- The lines of a queue of streams, in order. -/
def readLines (streams : List Stream) : List Line := streams.flatMap Stream.lines

theorem splitLines_append_newline (acc rest : Bytes) :
    splitLines.go (0x0A :: rest) acc = (0x0A :: acc).reverse :: splitLines.go rest [] := by
  simp [splitLines.go]

end ForthMachine.Input
