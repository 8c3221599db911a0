import ForthMachine.Input.Cursor

/-!
# Reading a queue of streams

Input comes as a queue of streams, each read through a buffer of `bufferSize` bytes. A stream
delivers its bytes in pieces of its own choosing: a read gets the next piece, or its front when
less room is left in the buffer, and the end is reported either by a read of nothing or together
with the last bytes. A call for the next line takes the bytes up to and including the next line
feed, handing over a full buffer to the line whenever the buffer fills without one, and reading
more while the buffer has room. Meeting the end, it takes whatever was left.

The queue opens its streams one after another. A line that has bytes is numbered in its stream
and returned, trailing carriage returns and line feeds removed; meeting the end, the queue
closes the stream, when it can be closed, and goes on with the next. Once every stream is
drained, every call answers that the input is over.

The main statement is `Source.content_whole`: a stream read whole delivers its bytes.
-/

namespace ForthMachine.Input

open ForthMachine.Text

/-- A stream as its reader delivers it: its name, its bytes in the pieces successive reads
return, whether the end comes with the last bytes, and whether the reader can be closed. -/
structure Source where
  name : String
  pieces : List Bytes
  pieces_ne : ∀ p ∈ pieces, p ≠ []
  endsWithLast : Bool
  closer : Bool

/-- The bytes a source delivers. -/
def Source.content (s : Source) : Bytes := s.pieces.flatten

/-- The stream of lines a source delivers. -/
def Source.stream (s : Source) : Stream := ⟨s.name, s.content⟩

/-- A source that hands over all its bytes as soon as there is room for them, as an in-memory
reader does. -/
def Source.whole (name : String) (data : Bytes) (closer : Bool) : Source where
  name := name
  pieces := if data = [] then [] else [data]
  pieces_ne := by split <;> simp_all
  endsWithLast := false
  closer := closer

theorem Source.content_whole (name : String) (data : Bytes) (closer : Bool) :
    (Source.whole name data closer).content = data := by
  unfold Source.whole Source.content
  split <;> simp_all

/-- One read with `room` bytes free from the pieces not yet read: the bytes it returns, whether
it reports the end, and the pieces left. -/
def readPieces (endsWithLast : Bool) (room : Nat) : List Bytes → Bytes × Bool × List Bytes
  | [] => ([], true, [])
  | p :: ps =>
    if p.length ≤ room then (p, endsWithLast && ps.isEmpty, ps)
    else (p.take room, false, p.drop room :: ps)

/-- A read with room for at least one byte takes bytes from the pieces or reports the end. -/
theorem readPieces_work (e : Bool) {room : Nat} (hroom : 0 < room) (ps : List Bytes) :
    2 * (readPieces e room ps).2.2.flatten.length + (readPieces e room ps).2.2.length +
      (readPieces e room ps).1.length + (if (readPieces e room ps).2.1 then 0 else 1) <
    2 * ps.flatten.length + ps.length + 1 := by
  cases ps with
  | nil => simp [readPieces]
  | cons p qs =>
    unfold readPieces
    by_cases hp : p.length ≤ room
    · simp only [if_pos hp, List.flatten_cons, List.length_append, List.length_cons]
      split <;> omega
    · simp only [if_neg hp, List.flatten_cons, List.length_append, List.length_cons,
        List.length_drop, List.length_take, if_false, Bool.false_eq_true]
      omega

/-- A buffered reader: the bytes read and not yet taken, whether a read reported the end, the
pieces not yet read, and whether the end comes with the last bytes. -/
structure Buffered where
  ahead : Bytes
  ended : Bool
  pending : List Bytes
  endsWithLast : Bool

/-- A buffered reader over a source, before its first read. -/
def Buffered.open (s : Source) : Buffered := ⟨[], false, s.pieces, s.endsWithLast⟩

/-- How much is left to do: twice the bytes not yet read and their number of pieces, the bytes
read ahead, and one more while the end is not reported. -/
def Buffered.work (b : Buffered) : Nat :=
  2 * b.pending.flatten.length + b.pending.length + b.ahead.length + (if b.ended then 0 else 1)

/-- Takes bytes up to and including the next line feed after the bytes `acc` already taken:
the bytes, whether the end was met before a line feed, and the reader after them. -/
def Buffered.readLine (b : Buffered) (acc : Bytes) : Bytes × Bool × Buffered :=
  match splitAtNewline b.ahead with
  | some (line, rest) => (acc ++ line, false, { b with ahead := rest })
  | none =>
    if _he : b.ended then (acc ++ b.ahead, true, { b with ahead := [], ended := false })
    else if _hf : bufferSize ≤ b.ahead.length then readLine { b with ahead := [] } (acc ++ b.ahead)
    else
      match _hr : readPieces b.endsWithLast (bufferSize - b.ahead.length) b.pending with
      | (bs, eof, rest) => readLine { b with ahead := b.ahead ++ bs, ended := eof, pending := rest } acc
termination_by b.work
decreasing_by
  · simp only [Buffered.work, _he, if_false, Bool.false_eq_true, List.length_nil]
    unfold bufferSize at _hf
    omega
  · have hroom : 0 < bufferSize - b.ahead.length := by omega
    have h := readPieces_work b.endsWithLast hroom b.pending
    rw [_hr] at h
    simp only [Buffered.work, _he, if_false, Bool.false_eq_true, List.length_append] at h ⊢
    omega

/-- Reading a queue of streams: the streams not yet opened, the one being read with its reader,
the location of its last line, the last line returned, and the streams closed so far. -/
structure Queue where
  waiting : List Source
  current : Option (Source × Buffered)
  loc : Location
  last : Line
  closed : List Source

/-- A queue of streams before its first read. -/
def Queue.start (sources : List Source) : Queue :=
  ⟨sources, none, ⟨"", 0⟩, ⟨⟨"", 0⟩, []⟩, []⟩

/-- Closes the stream being read, when it can be closed, and drops it. -/
def Queue.closeCurrent (q : Queue) : Queue :=
  match q.current with
  | some (s, _) => { q with current := none, closed := if s.closer then q.closed ++ [s] else q.closed }
  | none => q

/-- Opens the stream `s`, with `rest` waiting behind it; its lines are numbered from 1. -/
def Queue.openStream (q : Queue) (s : Source) (rest : List Source) : Queue :=
  { q with waiting := rest, current := some (s, Buffered.open s), loc := ⟨s.name, 0⟩ }

/-- Records the next line of the stream `s` being read, taken as `text`, with its reader now
at `b`. -/
def Queue.advance (q : Queue) (s : Source) (b : Buffered) (text : Bytes) : Queue :=
  let loc : Location := { q.loc with line := q.loc.line + 1 }
  { q with current := some (s, b), loc := loc, last := ⟨loc, trimLineEnd text⟩ }

@[simp] theorem Queue.openStream_current (q : Queue) (s : Source) (rest : List Source) :
    (q.openStream s rest).current = some (s, Buffered.open s) := rfl

@[simp] theorem Queue.openStream_waiting (q : Queue) (s : Source) (rest : List Source) :
    (q.openStream s rest).waiting = rest := rfl

@[simp] theorem Queue.openStream_loc (q : Queue) (s : Source) (rest : List Source) :
    (q.openStream s rest).loc = ⟨s.name, 0⟩ := rfl

@[simp] theorem Queue.openStream_closed (q : Queue) (s : Source) (rest : List Source) :
    (q.openStream s rest).closed = q.closed := rfl

@[simp] theorem Queue.advance_current (q : Queue) (s : Source) (b : Buffered) (text : Bytes) :
    (q.advance s b text).current = some (s, b) := rfl

@[simp] theorem Queue.advance_waiting (q : Queue) (s : Source) (b : Buffered) (text : Bytes) :
    (q.advance s b text).waiting = q.waiting := rfl

@[simp] theorem Queue.advance_loc (q : Queue) (s : Source) (b : Buffered) (text : Bytes) :
    (q.advance s b text).loc = ⟨q.loc.name, q.loc.line + 1⟩ := rfl

@[simp] theorem Queue.advance_last (q : Queue) (s : Source) (b : Buffered) (text : Bytes) :
    (q.advance s b text).last = ⟨⟨q.loc.name, q.loc.line + 1⟩, trimLineEnd text⟩ := rfl

@[simp] theorem Queue.advance_closed (q : Queue) (s : Source) (b : Buffered) (text : Bytes) :
    (q.advance s b text).closed = q.closed := rfl

/-- Twice the streams not yet opened, and one more while a stream is being read. -/
def Queue.work (q : Queue) : Nat := 2 * q.waiting.length + (if q.current.isSome then 1 else 0)

/-- The next line, or `none` once every stream is drained. -/
def Queue.readLine (q : Queue) : Option Line × Queue :=
  match _hc : q.current with
  | none =>
    match _hw : q.waiting with
    | [] => (none, q)
    | s :: rest => readLine (q.openStream s rest)
  | some (s, b) =>
    match b.readLine [] with
    | (text, atEnd, b') =>
      if text.isEmpty then readLine q.closeCurrent
      else
        let q' := q.advance s b' text
        (some q'.last, if atEnd then q'.closeCurrent else q')
termination_by q.work
decreasing_by
  · simp only [Queue.work, Queue.openStream, _hc, _hw, List.length_cons, Option.isSome_some,
      Option.isSome_none, if_true, Bool.false_eq_true, if_false]
    omega
  · simp [Queue.work, Queue.closeCurrent, _hc]

/-- The answers of `n` calls for the next line, and the queue after them. -/
def Queue.readMany (q : Queue) : Nat → List (Option Line) × Queue
  | 0 => ([], q)
  | n + 1 =>
    let (r, q') := q.readLine
    let (rs, q'') := q'.readMany n
    (r :: rs, q'')

/-- The lines of a queue of streams read whole, as the calls for the next line return them,
up to the first answer that the input is over. -/
def readQueue (streams : List Stream) : List Line :=
  let sources := streams.map fun s => Source.whole s.name s.data true
  let total := (streams.flatMap Stream.data).length + 1
  ((Queue.start sources).readMany total).1.takeWhile Option.isSome |>.filterMap id

end ForthMachine.Input
