import ForthMachine.Machine.State

/-!
# Reading the input line

The outer interpreter reads a line as a sequence of tokens: maximal runs of bytes that
are not blanks, where the blanks are space, tab, line feed, carriage return, vertical tab
and form feed. Parsing words read further text from the same line: a name (the next
token), or the text up to a delimiter, skipping the one blank that separates it from the
parsing word.

The main statement is `splitToken_append`: a token split off the input, followed by
what remains, is what the input held after its leading blanks.
-/

namespace ForthMachine

open ForthMachine.Text

/-- The blanks that separate tokens. -/
def isBlank (b : UInt8) : Bool := b == 32 || b == 9 || b == 10 || b == 13 || b == 11 || b == 12

/-- Splits the next token off the input: leading blanks are skipped, then the token is
the longest run of non-blanks. An empty token means the input held only blanks. -/
def splitToken (input : Bytes) : Bytes × Bytes :=
  let s := input.dropWhile isBlank
  (s.takeWhile (fun b => !isBlank b), s.dropWhile (fun b => !isBlank b))

/-- The text up to a delimiter, after skipping one blank; the rest follows the delimiter.
Without a delimiter the text runs to the end of the line. -/
def splitUntil (delim : UInt8) (input : Bytes) : Bytes × Bytes :=
  let s := match input with
    | b :: r => if isBlank b then r else input
    | [] => []
  match s.idxOf? delim with
  | some i => (s.take i, s.drop (i + 1))
  | none => (s, [])

/-- Reads the next token of the line. -/
def nextToken : Vm Bytes := modifyGet fun m =>
  let (t, r) := splitToken m.rest
  (t, { m with rest := r })

/-- Reads the text up to a delimiter. -/
def parseUntil (delim : UInt8) : Vm Bytes := modifyGet fun m =>
  let (t, r) := splitUntil delim m.rest
  (t, { m with rest := r })

/-- Reads the name operand of a parsing word; there must be one. -/
def parseName : Vm Bytes := do
  let name ← nextToken
  if name.isEmpty then throw (.missingName (← get).token)
  return name

/-- Drops the rest of the line. -/
def skipLine : Vm Unit := modify fun m => { m with rest := [] }

theorem splitToken_append (input : Bytes) :
    (splitToken input).1 ++ (splitToken input).2 = input.dropWhile isBlank := by
  simp [splitToken, List.takeWhile_append_dropWhile]

end ForthMachine
