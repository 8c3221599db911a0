import ForthMachine.Input.Lines

/-!
# Reading a file that changes

Source files are read through a buffer of 4096 bytes while the program runs, and the
program may rewrite a file it is reading (a block file, say). What a line holds then
depends on when its bytes were read: bytes already in the buffer keep the value they had,
and a later read sees the file as it is at that time, from the reader's position on.

A line is taken the way a buffered reader takes it: from the bytes read ahead, when they
hold a line feed; otherwise a full buffer is handed over to the line and emptied, or the
file is read into the free part of the buffer. A read that gets nothing marks the end, and
the line taken then is whatever was left, perhaps nothing.

The main statement is `takeLine_of_split`: a line feed among the bytes read ahead ends the
line without reading the file.
-/

namespace ForthMachine.Input

open ForthMachine.Text

/-- The size of the read buffer. -/
def bufferSize : Nat := 4096

/-- A buffered reading position in a file. -/
structure Cursor where
  /-- The position of the next read in the file. -/
  offset : Nat
  /-- Bytes read and not yet taken. -/
  ahead : Bytes
  /-- Whether a read found the end. -/
  ended : Bool

/-- The cursor at the start of a file. -/
def Cursor.start : Cursor := ⟨0, [], false⟩

/-- The bytes up to and including the first line feed, and the rest, if there is a line
feed. -/
def splitAtNewline (bs : Bytes) : Option (Bytes × Bytes) :=
  match bs.span (· ≠ 0x0A) with
  | (_, []) => none
  | (pre, _ :: post) => some (pre ++ [0x0A], post)

/-- How much is left to do: twice the unread bytes of the file, the bytes read ahead, and
one more while the end is not met. Every step of `takeLine` lowers it. -/
def Cursor.work (c : Cursor) (data : Bytes) : Nat :=
  2 * (data.length - c.offset) + c.ahead.length + (if c.ended then 0 else 1)

/-- Takes the next line from the file, which now holds `data`, after the bytes `acc`
already taken: the line's bytes including its line feed, the cursor after it, and whether
the end was met, in which case the line is all that was left. -/
def Cursor.takeLine (c : Cursor) (data : Bytes) (acc : Bytes) : Bytes × Cursor × Bool :=
  match splitAtNewline c.ahead with
  | some (line, rest) => (acc ++ line, { c with ahead := rest }, false)
  | none =>
    if _he : c.ended then (acc ++ c.ahead, { c with ahead := [] }, true)
    else if _hf : bufferSize ≤ c.ahead.length then
      takeLine { c with ahead := [] } data (acc ++ c.ahead)
    else
      match _hc : (data.drop c.offset).take (bufferSize - c.ahead.length) with
      | [] => takeLine { c with ended := true } data acc
      | b :: bs =>
        takeLine { c with ahead := c.ahead ++ b :: bs, offset := c.offset + (b :: bs).length }
          data acc
termination_by c.work data
decreasing_by
  all_goals simp only [Cursor.work, _he, if_false, Bool.false_eq_true]
  · simp only [List.length_nil]; unfold bufferSize at _hf; omega
  · simp
  · have hl := congrArg List.length _hc
    simp only [List.length_take, List.length_drop, List.length_cons] at hl
    simp only [List.length_append, List.length_cons]
    omega

theorem takeLine_of_split (c : Cursor) (data acc line rest : Bytes)
    (h : splitAtNewline c.ahead = some (line, rest)) :
    c.takeLine data acc = (acc ++ line, { c with ahead := rest }, false) := by
  rw [Cursor.takeLine, h]

end ForthMachine.Input
