import ForthMachine.Machine.Storage

/-!
# The inner interpreter

Running a word executes threaded code from its body until it returns. Calls push a frame
of two return stack cells (the calling word and the resume address); the run is over
once an `exit` finds the return stack back at the depth it started with.

Code is only fetched from the allocated part of the dictionary. Each token dispatched
counts against the step budget of the line, when there is one.

Counted loops keep three return stack cells: the leave address, the limit, and the index
on top. A loop step leaves the loop exactly when the index crosses the boundary between
`limit - 1` and `limit`, in either direction; a zero step never crosses.

The main statement is `crosses_zero`: a zero step never leaves a loop.
-/

namespace ForthMachine

open ForthMachine.Text ForthMachine.Memory

/-- The cell at `pos` as code; it must lie in the allocated dictionary. -/
def fetchCode (pos : UInt32) : Vm UInt32 := do
  let m ← get
  if pos < dictBase || pos.toNat + 4 > m.here.toNat then
    throw (.address ⟨pos, .fetch, .outsideDictionary⟩)
  loadCell pos

/-- Reads the operand cell at the instruction pointer and moves past it. -/
def nextOperand : Vm UInt32 := do
  let v ← fetchCode (← get).ip
  modify fun m => { m with ip := m.ip + 4 }
  return v

/-- Runs a host primitive. -/
def HostAction.run : HostAction → Vm Unit
  | .pushValue v => push .data v
  | .panic v => throw (.panicked v)
  | .exit => throw .exited
  | .fail msg => throw (.host msg)
  | .print text => emitBytes (Bytes.ofString text)
  | .add3 => do
    let c ← pop .data
    let b ← pop .data
    let a ← pop .data
    push .data (a + b + c)
  | .peekAt n => do
    if n < 0 then throw (.stack ⟨.data, .underflow⟩)
    push .data (← peek .data n.toNat.toUInt32)
  | .load => do
    let addr ← pop .data
    push .data (← loadData addr)
  | .store => do
    let addr ← pop .data
    let v ← pop .data
    storData addr v

/-- Runs a primitive's action. -/
def Action.run : Action → Vm Unit
  | .compiler w => w.run
  | .library w => w.run
  | .blocks w => w.run
  | .host h => h.run

/-- What the runtime panics with when a function that is not there is called. -/
def nilFunctionPanic : String := "runtime error: invalid memory address or nil pointer dereference"

/-- Runs primitive number `idx`; a number past the table is an invalid token. An entry without
an action is a nil function, whose call panics; installing refuses such entries. -/
def callPrim (idx : UInt32) : Vm Unit := do
  let m ← get
  match m.prims[idx.toNat]? with
  | some { action := some a, .. } => a.run
  | some _ => throw (.panicked nilFunctionPanic)
  | none => throw (.invalidToken (m.ip - 4) (Token.make .prim idx))

/-- Whether a loop index moving from `i` to `i + step` crosses the boundary between
`limit - 1` and `limit`: the signs of `i - limit` and `i + step - limit` differ. -/
def crosses (i limit step : UInt32) : Bool :=
  ((i - limit) ^^^ (i + step - limit)) >>> 31 == 1

/-- Steps a counted loop: leaves it, dropping its frame, or jumps back to its start. -/
def stepLoop (step : UInt32) : Vm Unit := do
  let start ← nextOperand
  let i ← peek .ret 0
  let limit ← peek .ret 1
  if crosses i limit step then dropCells .ret 3
  else
    modify fun m => { m with ip := start }
    poke .ret 0 (i + step)

/-- Enters a counted loop: pops the start index and the limit, pushes the loop frame. -/
def enterLoop : Vm Unit := do
  let leave ← nextOperand
  let start ← pop .data
  let limit ← pop .data
  push .ret leave
  push .ret limit
  push .ret start

/-- The data stack as the trace shows it: `[1 2 3]`. -/
def Machine.stackText (m : Machine) : Bytes :=
  [0x5B] ++ (((m.cells .data).map fun v => decimalInt (Cell.toInt v)).intersperse [0x20]).flatten ++ [0x5D]

/-- Runs the token `code` fetched from `pos`; returns whether the run is over. The run
started with `base` cells on the return stack. -/
def dispatch (base pos code : UInt32) : Vm Bool := do
  match Token.kind? code with
  | some .exit =>
    if (← get).ret.depth ≤ base then return true
    let resume ← pop .ret
    let word ← pop .ret
    modify fun m => { m with cur := word, ip := resume }
    return false
  | some .prim => callPrim (Token.arg code); return false
  | some .call => callWord (Token.arg code - headerSize); return false
  | some .lit => push .data (← nextOperand); return false
  | some .branch =>
    let target ← nextOperand
    modify fun m => { m with ip := target }
    return false
  | some .branch0 =>
    let target ← nextOperand
    let flag ← pop .data
    if flag = 0 then modify fun m => { m with ip := target }
    return false
  | some .enterLoop => enterLoop; return false
  | some .stepLoop => stepLoop 1; return false
  | some .stepLoopBy => stepLoop (← pop .data); return false
  | none => throw (.invalidToken pos code)

/-- What bounds the tokens a line dispatches. A step budget counts the tokens of the whole
line and faults once it is spent. Without one a run may go on for ever; `fuel n` cuts each run
off after `n` tokens, a bound that only stands in for a run that never ends. -/
inductive StepLimit where
  | budget (n : Nat)
  | fuel (n : Nat)
  deriving DecidableEq, Repr

/-- Whether a limit forbids dispatching another token once `steps` have been dispatched. -/
def StepLimit.spent : StepLimit → Nat → Bool
  | .budget n, steps => steps ≥ n
  | .fuel _, _ => false

/-- Counts a token against the step budget, fetches it from the instruction pointer and
moves past it; returns the token's address and the token. -/
def fetchToken (limit : StepLimit) : Vm (UInt32 × UInt32) := do
  let m ← get
  if limit.spent m.steps then throw .stepBudgetExceeded
  set { m with steps := m.steps + 1 }
  let pos := (← get).ip
  let code ← fetchCode pos
  modify fun m => { m with ip := m.ip + 4 }
  let m ← get
  trace ">" fun _ => Bytes.ofString ("@" ++ toString pos.toNat ++ " ") ++ m.tokenText pos ++
    [0x20] ++ m.stackText
  return (pos, code)

/-- Dispatches one token; returns whether the run is over. The run started with `base`
cells on the return stack. -/
def step (limit : StepLimit) (base : UInt32) : Vm Bool := do
  let (pos, code) ← fetchToken limit
  dispatch base pos code

/-- Dispatches tokens until the run is over, at most `fuel` of them. -/
def runSteps (limit : StepLimit) (base : UInt32) : Nat → Vm Unit
  | 0 => throw .stepBudgetExceeded
  | fuel + 1 => do
    if ← step limit base then return ()
    runSteps limit base fuel

/-- How many tokens a run started at `m` may dispatch: what the line's step budget has left,
and one more to find it spent; without a budget, the fuel. -/
def StepLimit.runFuel : StepLimit → Machine → Nat
  | .budget n, m => n - m.steps + 1
  | .fuel n, _ => n

/-- Runs the word at header `h` until it returns. -/
def runWord (limit : StepLimit) (h : UInt32) : Vm Unit := do
  let m ← get
  let base := m.ret.depth
  set { m with cur := h, ip := h + headerSize }
  runSteps limit base (limit.runFuel m)

/-- How many tokens a run may dispatch when its line has no step budget: 2²⁶. -/
def unboundedSteps : Nat := 67108864

/-- The limit a machine processes its lines under: its step budget, when it has one, else
`unboundedSteps` tokens for each run. -/
def Machine.stepLimit (m : Machine) : StepLimit :=
  if m.settings.stepBudget > 0 then .budget m.settings.stepBudget.toNat else .fuel unboundedSteps

theorem crosses_zero (i limit : UInt32) : crosses i limit 0 = false := by
  simp [crosses]

end ForthMachine
