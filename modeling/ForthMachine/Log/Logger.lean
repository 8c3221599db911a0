import ForthMachine.Text.Utf8

/-!
# Leveled logging

A logger writes messages, each on a line of its own, prefixed by a level (`ERROR: …`,
`TRACE: …`) unless the level is empty. A message that does not end a line gets a line
feed; an empty message without a level writes nothing. Logging an error also sets the
exit code to 1, once. A disconnected logger drops what it is given.

A line writer collects written bytes and hands on each complete line, without its line
feed; syncing it hands on the rest as a last line.

The main statement is `error_exitCode`: after an error the exit code is not 0.
-/

namespace ForthMachine.Log

open ForthMachine.Text

/-- A logger: whether it is connected, what it wrote, and the exit code it suggests. -/
structure Logger where
  connected : Bool := true
  written : Bytes := []
  exitCode : Nat := 0

/-- The text a message is logged as, with its level and a final line feed. -/
def entry (level : String) (message : Bytes) : Bytes :=
  let text := (if level.isEmpty then [] else Bytes.ofString (level ++ ": ")) ++ message
  if text.isEmpty || text.getLast? = some 0x0A then text else text ++ [0x0A]

/-- Logs a message at a level. -/
def Logger.print (l : Logger) (level : String) (message : Bytes) : Logger :=
  if l.connected then { l with written := l.written ++ entry level message } else l

/-- Logs an error; the exit code becomes 1 unless it was already set. -/
def Logger.error (l : Logger) (message : Bytes) : Logger :=
  let l := l.print "ERROR" message
  { l with exitCode := if l.exitCode = 0 then 1 else l.exitCode }

/-- Logs an error, if there is one. -/
def Logger.errorIf (l : Logger) : Option Bytes → Logger
  | some m => l.error m
  | none => l

/-- Collects written bytes and hands on complete lines. -/
structure LineWriter where
  pending : Bytes := []
  lines : Array Bytes := #[]

/-- Hands on every complete line of the pending bytes, and with `all`, the rest too. -/
def LineWriter.emit (w : LineWriter) (all : Bool) : LineWriter :=
  let parts := w.pending.splitOn 0x0A
  let complete := parts.dropLast
  let rest := parts.getLast?.getD []
  let lines := w.lines ++ complete.toArray
  if all && !rest.isEmpty then { pending := [], lines := lines.push rest }
  else { pending := rest, lines := lines }

/-- Writes bytes, handing on the lines they complete. -/
def LineWriter.write (w : LineWriter) (p : Bytes) : LineWriter :=
  ({ w with pending := w.pending ++ p }).emit false

/-- Hands on everything written so far. -/
def LineWriter.sync (w : LineWriter) : LineWriter := w.emit true

theorem error_exitCode (l : Logger) (m : Bytes) : (l.error m).exitCode ≠ 0 := by
  simp only [Logger.error]
  split <;> omega

end ForthMachine.Log
