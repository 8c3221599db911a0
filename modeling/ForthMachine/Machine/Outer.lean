import ForthMachine.Machine.Inner
import ForthMachine.Character.Literal

/-!
# The outer interpreter

A line is processed token by token. A token that names a visible word runs it, or, while
compiling, compiles a reference to it unless the word is immediate; a compile-only word
may not run while interpreting. Any other token must be a literal: a number in the
current base with an optional leading minus (unsigned values up to 2³² wrap to negative
cells), or a character literal. A literal is pushed, or compiled while compiling.

The first failure stops the line and becomes a *fault*. The machine then discards any
open definition, clears its return and control stacks and goes back to interpreting;
faults raised by executing code also clear the data stack, while faults raised while
reading or compiling input leave it as it was. After a line, successful or not, the
output is flushed.

The main statement is `readNumber_neg`: a minus sign negates the number that follows.
-/

namespace ForthMachine

open ForthMachine.Text ForthMachine.Character

/-- A numeral in base `b` with an optional leading minus, wrapped to a cell. A lone minus
sign is no numeral. -/
def readNumber (b : Nat) (tok : Bytes) : Option UInt32 :=
  match tok with
  | 0x2D :: d :: ds => (readCell b (d :: ds)).map Cell.neg
  | _ => readCell b tok

/-- The value of a literal token: a number in the current base, or a character. -/
def parseLiteral (tok : Bytes) : Vm UInt32 := do
  let b ← radix
  match readNumber b tok with
  | some v => return v
  | none =>
    match readLiteral tok with
    | .ok c => return c.toUInt32
    | .error _ => throw .unknownWord

/-- Interprets one token. -/
def interpretToken (limit : StepLimit) (tok : Bytes) : Vm Unit := do
  let m ← get
  match m.lookup tok with
  | some h =>
    let (flags, _) ← wordInfo h
    if m.compiling && !hasFlag flags flagImmediate then compileWord h
    else if !m.compiling && hasFlag flags flagCompileOnly then throw .compileOnly
    else
      runWord limit h
      modify fun m => { m with cur := 0 }
  | none =>
    let v ← parseLiteral tok
    if (← get).compiling then let _ ← compileOperand .lit v
    else push .data v

/-- Interprets the tokens of the rest of the line; `fuel` bounds their number. -/
def interpret (limit : StepLimit) : Nat → Vm Unit
  | 0 => pure ()
  | fuel + 1 => do
    let tok ← nextToken
    if tok.isEmpty then return
    modify fun m => { m with token := tok, cur := 0 }
    interpretToken limit tok
    interpret limit fuel

/-- Turns an error into a fault and recovers: the open definition is abandoned, the
return and control stacks cleared, the data stack too unless the error came from reading
or compiling input. -/
def Machine.recover (m : Machine) (e : MachineError) : Machine × Fault :=
  let f : Fault := ⟨e, m.token, if m.cur ≠ 0 then m.wordName m.cur else [], m.line⟩
  let keep := e.isCompileError m.compiling
  let act : Vm Unit := do
    ForthMachine.trace "!" fun _ => f.message
    abandon
    modify fun m => { m with compiling := false, ret := m.ret.clear,
                             control := m.control.clear,
                             data := if keep then m.data else m.data.clear,
                             ip := 0, cur := 0 }
  match act.run m with
  | .ok _ m' => (m', f)
  | .error _ m' => (m', f)

/-- Records a trace line outside of any operation. -/
def Machine.note (m : Machine) (mark : String) (message : Bytes) : Machine :=
  match (ForthMachine.trace mark fun _ => message).run m with
  | .ok _ m' => m'
  | .error _ m' => m'

/-- What a failed host primitive reported when it gave up, as the trace shows it. -/
def MachineError.abortNote? : MachineError → Option Bytes
  | .panicked v => some (Bytes.ofString ("ProcessLine paniced: " ++ v))
  | .exited => some (Bytes.ofString "ProcessLine called runtime.Goexit")
  | _ => none

/-- Notes in the trace what a failed host primitive reported, if anything. -/
def Machine.noteAbort (m : Machine) (e : MachineError) : Machine :=
  match e.abortNote? with
  | some n => m.note "!" n
  | none => m

/-- Flushes the output after a fault: a failure is only noted in the trace. -/
def Machine.noteFlushFailure (m : Machine) : Machine :=
  match m.sink.flush with
  | some fe => m.note "!" (Bytes.ofString ("flush failed: " ++ fe.message))
  | none => m

/-- Processes one line of input, the runs of its words bounded by `limit`. -/
def Machine.processLineWithin (limit : StepLimit) (m : Machine) (line : Bytes) :
    Machine × Option LineError :=
  let m := { m with line := line, rest := line, token := [], steps := 0 }
  let m := m.note "<" (quote line)
  match (interpret limit (line.length + 1)).run m with
  | .ok _ m =>
    match m.sink.flush with
    | none => (m, none)
    | some e => (m, some (.flush e))
  | .error e m =>
    let r := (m.noteAbort e).recover e
    (r.1.noteFlushFailure, some (.fault r.2))

/-- Processes one line of input under the machine's own step limit. -/
def Machine.processLine (m : Machine) (line : Bytes) : Machine × Option LineError :=
  m.processLineWithin m.stepLimit line

theorem readNumber_neg (b : Nat) (d : UInt8) (ds : Bytes) :
    readNumber b (0x2D :: d :: ds) = (readCell b (d :: ds)).map Cell.neg := rfl

end ForthMachine
