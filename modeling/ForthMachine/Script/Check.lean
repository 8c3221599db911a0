import ForthMachine.Machine.Host
import ForthMachine.Input.Lines
import ForthMachine.Text.Blank

/-!
# Check scripts

A check script drives a fresh machine line by line and says what must happen:

* `> input` must be processed without error;
* `< text` follows a `>` line and gives a line of the output it must produce;
* `x input` must fail;
* `( name value )` before the first input sets the stack sizes, the dictionary's size in
  bytes or the step budget; any other line is a comment.

Output is compared line by line, ignoring trailing blanks, tabs and carriage returns;
a final line feed ends the last line rather than starting an empty one.

The machine's region holds the dictionary, room for two block buffers and the stacks.
The host's options apply after the script's settings, and output is always captured.

The main statement is `outputLines_empty`: no output is no lines at all.
-/

namespace ForthMachine.Check

open ForthMachine.Text ForthMachine.Input ForthMachine.Block

/-- A named check script. -/
structure Script where
  name : String
  text : Bytes

/-- The settings a script may give before its first input. -/
structure Frontmatter where
  dataStack : Int := 64
  returnStack : Int := 64
  controlStack : Int := 16
  dictBytes : Int := 16384
  stepBudget : Int := 0

/-- One input of a script: its line, whether it must fail, and the output lines it must
produce (none given: any output). -/
structure Step where
  line : Line
  fail : Bool
  expect : List Bytes := []

/-- Why a setting line is refused. -/
inductive SettingError where
  /-- The line is not `name value )`. -/
  | malformed (name : Bytes)
  /-- The value is no 64-bit decimal integer. -/
  | badNumber (text : Bytes) (e : NumberError)

/-- The message of a refused setting. -/
def SettingError.message : SettingError → Bytes
  | .malformed name => .ofString "malformed " ++ name ++ .ofString " setting"
  | .badNumber text e =>
    .ofString "strconv.Atoi: parsing " ++ quote text ++ .ofString (match e with
      | .invalid => ": invalid syntax"
      | .outOfRange => ": value out of range")

/-- What lies behind a failed script step. -/
inductive Cause where
  | setting (e : SettingError)
  | line (e : LineError)

/-- A script line that did not go as the script says. -/
structure ScriptError where
  loc : Location
  input : Bytes
  reason : Bytes
  cause : Option Cause

/-- The message of a script error: location, reason, and the cause if any. -/
def ScriptError.message (e : ScriptError) : Bytes :=
  Bytes.ofString (e.loc.text ++ ": ") ++ e.reason ++
    match e.cause with
    | some (.setting s) => .ofString ": " ++ s.message
    | some (.line l) => .ofString ": " ++ l.message
    | none => []

/-- The class of a script error: that of the fault behind it, if any. -/
def ScriptError.kind (e : ScriptError) : ErrorKind :=
  match e.cause with
  | some (.line l) => l.kind
  | _ => .other

/-- How running a script failed: a step, or making its machine. -/
inductive Failure where
  | step (e : ScriptError)
  | setup (name : String) (e : MachineError)

/-- The message of a failure. -/
def Failure.message : Failure → Bytes
  | .step e => e.message
  | .setup name e => Bytes.ofString (name ++ ": ") ++ e.message

/-- The class of a failure. -/
def Failure.kind : Failure → ErrorKind
  | .step e => e.kind
  | .setup _ e => e.kind

/-- Splits at the first space: the part before it and the part after it. -/
def cutAtSpace (bs : Bytes) : Bytes × Bytes :=
  (bs.takeWhile (· ≠ 0x20), (bs.dropWhile (· ≠ 0x20)).drop 1)

/-- Applies a setting line (the text after `(`); unknown names are comments. -/
def Frontmatter.apply (f : Frontmatter) (text : Bytes) : Except SettingError Frontmatter :=
  match fields text with
  | [] => .ok f
  | name :: args =>
    let set : Option (Int → Frontmatter) :=
      if name = Bytes.ofString "data_stack_elems" then some fun n => { f with dataStack := n }
      else if name = Bytes.ofString "return_stack_elems" then some fun n => { f with returnStack := n }
      else if name = Bytes.ofString "control_stack_elems" then some fun n => { f with controlStack := n }
      else if name = Bytes.ofString "dict_buf_elems" then some fun n => { f with dictBytes := n }
      else if name = Bytes.ofString "step_budget" then some fun n => { f with stepBudget := n }
      else none
    match set, args with
    | none, _ => .ok f
    | some g, [value, close] =>
      if close ≠ [0x29] then .error (.malformed name) else
      match readInt64 value with
      | .ok n => .ok (g n)
      | .error e => .error (.badNumber value e)
    | some _, _ => .error (.malformed name)

/-- Adds an expected output line to the last step. -/
def addExpect (steps : List Step) (text : Bytes) : List Step :=
  match steps.reverse with
  | [] => []
  | s :: rest => (({ s with expect := s.expect ++ [text] }) :: rest).reverse

/-- Reads a script's settings and steps. -/
def parseLines (f : Frontmatter) (steps : List Step) :
    List Line → Except ScriptError (Frontmatter × List Step)
  | [] => .ok (f, steps)
  | l :: ls =>
    let (tag, rest) := cutAtSpace l.text
    if tag = [0x3E] || tag = [0x78] then
      parseLines f (steps ++ [⟨⟨l.loc, rest⟩, tag = [0x78], []⟩]) ls
    else if tag = [0x3C] then
      match steps.getLast? with
      | some s =>
        if s.fail then .error ⟨l.loc, l.text, .ofString "output without a succeeding input", none⟩
        else parseLines f (addExpect steps rest) ls
      | none => .error ⟨l.loc, l.text, .ofString "output without a succeeding input", none⟩
    else if tag = [0x28] && steps.isEmpty then
      match f.apply rest with
      | .ok f => parseLines f steps ls
      | .error e => .error ⟨l.loc, l.text, .ofString "invalid setting", some (.setting e)⟩
    else parseLines f steps ls

/-- The output of a step as lines: a final line feed ends the last line. -/
def outputLines (out : Bytes) : List Bytes :=
  let out := if out.getLast? = some 0x0A then out.dropLast else out
  if out.isEmpty then [] else out.splitOn 0x0A

/-- A line without trailing blanks, tabs and carriage returns. -/
def trimTrailing (bs : Bytes) : Bytes :=
  (bs.reverse.dropWhile fun b => b = 0x20 || b = 0x09 || b = 0x0D).reverse

/-- Whether output lines match the expected ones, ignoring trailing blanks. -/
def linesMatch (got want : List Bytes) : Bool :=
  got.length = want.length && (got.zip want).all fun (g, w) => trimTrailing g = trimTrailing w

/-- Runs steps in order; the first one that does not go as expected stops the run. -/
def runSteps (m : Machine) : List Step → Machine × Option ScriptError
  | [] => (m, none)
  | s :: rest =>
    let m := { m with sink := m.sink.drain }
    let (m, e) := m.processLine s.line.text
    match s.fail, e with
    | true, none => (m, some ⟨s.line.loc, s.line.text, .ofString "expected failure", none⟩)
    | true, some _ => runSteps m rest
    | false, some e =>
      (m, some ⟨s.line.loc, s.line.text, .ofString "unexpected failure", some (.line e)⟩)
    | false, none =>
      let got := outputLines ((m.sink.captured .primary).getD ByteArray.empty).toList
      if s.expect.isEmpty || linesMatch got s.expect then runSteps m rest
      else (m, some ⟨s.line.loc, s.line.text,
        .ofString "expected output " ++ quoteList s.expect ++ .ofString ", got " ++ quoteList got,
        none⟩)

/-- The region size for a script's settings: the dictionary, two block buffers and the
stacks, summed in signed 64-bit arithmetic, so that huge settings wrap around. -/
def Frontmatter.regionSize (f : Frontmatter) : Nat :=
  (Int.bmod (dictBase.toNat + f.dictBytes + 2 * blockSize +
    4 * (f.dataStack + f.returnStack + 2 * f.controlStack)) UInt64.size).toNat

/-- The machine settings for a script: its own, then the host's options, then captured
output. -/
def Frontmatter.settings (f : Frontmatter) (opts : List Adjustment) : Settings :=
  Settings.ofAdjustments ([.dataStack f.dataStack, .returnStack f.returnStack,
    .controlStack f.controlStack, .stepBudget f.stepBudget] ++ opts ++ [.output true])

/-- What running scripts left: the first failure, the block device, and the trace. -/
structure Report where
  failure : Option Failure
  disk : Option Disk
  trace : Array Bytes

/-- Runs a script on a fresh machine. -/
def Script.run (s : Script) (opts : List Adjustment) : Report :=
  match parseLines {} [] (readLines [⟨s.name, s.text⟩]) with
  | .error e => ⟨some (.step e), (Settings.ofAdjustments opts).disk, #[]⟩
  | .ok (f, steps) =>
    let settings := f.settings opts
    match Machine.create f.regionSize settings with
    | (m, some e) => ⟨some (.setup s.name e), m.disk, m.trace⟩
    | (m, none) =>
      let (m, e) := runSteps m steps
      ⟨e.map .step, m.disk, m.trace⟩

/-- Replaces the block device of the options, if they name one. -/
def withDisk (opts : List Adjustment) (d : Option Disk) : List Adjustment :=
  match d with
  | some d => opts.map fun | .blocks _ => .blocks d | a => a
  | none => opts

/-- Runs scripts in order, the block device carrying over, until one fails. -/
def checkAll (opts : List Adjustment) : List Script → Report
  | [] => ⟨none, (Settings.ofAdjustments opts).disk, #[]⟩
  | s :: rest =>
    let r := s.run opts
    if r.failure.isSome then r else
    let r' := checkAll (withDisk opts r.disk) rest
    { r' with trace := r.trace ++ r'.trace }

theorem outputLines_empty : outputLines [] = [] := rfl

end ForthMachine.Check
