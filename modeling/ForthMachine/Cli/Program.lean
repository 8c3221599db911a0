import ForthMachine.Cli.Flags
import ForthMachine.Cli.Invocation
import ForthMachine.Script.Check
import ForthMachine.Log.Logger
import ForthMachine.Input.Cursor

/-!
# The command line

`forthvm [flags] [file ...]` feeds each file, then standard input, line by line into one
machine writing to standard output. A line that faults is reported on standard error as
`ERROR: name:line: message` (standard input is named `<stdin>`), and processing goes on.
A file that cannot be opened stops everything before any line is read. Files are read
as the run goes, so a line read after the run rewrote its file (a block file, say) holds
what the run wrote. With `-trace`,
every trace line is logged as `TRACE: …`, those of laying out the machine included.
With `-blocks DIR`, blocks live in `DIR/NNNNN.bin`, and the machine is reset at the end,
which writes back updated blocks.

With `-check`, the arguments are check scripts, each run on a fresh machine with the
flags' settings, which take the place of the scripts' own. The first failure is
reported.

The exit status is 1 when anything was reported as an error, 2 for bad flags, and 0
otherwise; `-h` prints the usage text.

The command is a function of its arguments, its standard input and the files of its
working directory; it returns its exit status, what it wrote, and the files as it left
them.

The main statement is `options_stepBudget`: the machine's step budget is the one `-steps`
gives.
-/

namespace ForthMachine.Cli

open ForthMachine.Text ForthMachine.Files ForthMachine.Block ForthMachine.Input
open ForthMachine.Log ForthMachine.Check

/-- The memory region's size. -/
def memFlag : Flag := ⟨"mem", .int 65536, "memory region size in bytes"⟩
/-- The data stack's capacity. -/
def dataStackFlag : Flag := ⟨"data-stack", .int 64, "data stack capacity in cells"⟩
/-- The return stack's capacity. -/
def returnStackFlag : Flag := ⟨"return-stack", .int 64, "return stack capacity in cells"⟩
/-- The control stack's capacity. -/
def controlStackFlag : Flag := ⟨"control-stack", .int 16, "control stack capacity in entries"⟩
/-- The initial number base. -/
def radixFlag : Flag := ⟨"radix", .int 10, "initial numeric base"⟩
/-- Whether word names keep their case. -/
def caseFlag : Flag := ⟨"case-sensitive", .bool false, "do not fold word names to lower case"⟩
/-- The step budget of a line. -/
def stepsFlag : Flag := ⟨"steps", .int 0, "limit tokens executed per line; 0 means unlimited"⟩
/-- Whether to log the trace. -/
def traceFlag : Flag := ⟨"trace", .bool false, "enable trace logging"⟩
/-- The directory of block files. -/
def blocksFlag : Flag := ⟨"blocks", .text "", "keep block storage under this directory"⟩
/-- Whether the arguments are check scripts. -/
def checkFlag : Flag := ⟨"check", .bool false, "run arguments as check scripts"⟩

/-- Every flag of the command. -/
def flags : List Flag :=
  [memFlag, dataStackFlag, returnStackFlag, controlStackFlag, radixFlag, caseFlag, stepsFlag,
   traceFlag, blocksFlag, checkFlag]

/-- The program's name, as the usage text gives it. -/
def programName : String := "forthvm"

/-- The machine options the flags give. -/
def options (p : Parsed) (files : Tree) : List Adjustment :=
  [.dataStack (p.int dataStackFlag), .returnStack (p.int returnStackFlag),
   .controlStack (p.int controlStackFlag), .radix (p.int radixFlag),
   .caseSensitive (p.bool caseFlag), .stepBudget (p.int stepsFlag)] ++
  (if p.bool traceFlag then [.trace] else []) ++
  (let dir := p.text blocksFlag
   if dir.isEmpty then [] else [.blocks (.directory { root := dir, tree := files })])

/-- A run in progress: the log, the output so far, and the machine. -/
structure Session where
  log : Logger
  stdout : Bytes
  machine : Machine

/-- Moves the machine's trace into the log and its output to standard output. -/
def Session.absorb (s : Session) : Session :=
  let m := s.machine
  { log := m.trace.foldl (fun l t => l.print "TRACE" t) s.log,
    stdout := s.stdout ++ ((m.sink.captured .primary).getD ByteArray.empty).toList,
    machine := { m with trace := #[], sink := m.sink.drain } }

/-- Runs a machine operation, logging what it traced and reporting its error. -/
def Session.step (s : Session) (op : Vm Unit) : Session :=
  match op.run s.machine with
  | .ok _ m => ({ s with machine := m }).absorb
  | .error e m =>
    let s := ({ s with machine := m }).absorb
    { s with log := s.log.error e.message }

/-- Processes a line, reporting a fault with its location. -/
def Session.processLine (s : Session) (l : Line) : Session :=
  let (m, e) := s.machine.processLine l.text
  let s := ({ s with machine := m }).absorb
  match e with
  | some e => { s with log := s.log.error (Bytes.ofString (l.loc.text ++ ": ") ++ e.message) }
  | none => s

/-- Processes lines in order. -/
def Session.processLines (s : Session) : List Line → Session
  | [] => s
  | l :: ls => (s.processLine l).processLines ls

/-- The files as the run now sees them: the block directory's, when blocks live there. -/
def Session.tree (s : Session) (initial : Tree) : Tree :=
  match s.machine.disk with
  | some (.directory d) => d.tree
  | _ => initial

/-- Feeds the lines of the file at `es`, numbered after `n`, reading each as its turn
comes. Every line takes at least one byte of the file, and the file never holds more than
its first contents or one block, so the fuel that `feedFile` gives is enough. -/
def Session.feedFrom (initial : Tree) (name : String) (es : List String) :
    Nat → Session → Cursor → Nat → Session
  | 0, s, _, _ => s
  | fuel + 1, s, c, n =>
    let (text, c, atEnd) := c.takeLine ((s.tree initial).contents es).toList []
    if text.isEmpty then s
    else
      let s := s.processLine ⟨⟨name, n + 1⟩, trimLineEnd text⟩
      if atEnd then s else feedFrom initial name es fuel s c (n + 1)

/-- Feeds the lines of the file at `es` from its start. -/
def Session.feedFile (s : Session) (initial : Tree) (name : String) (es : List String) :
    Session :=
  let fuel := ((s.tree initial).contents es).size + blockSize + 1
  Session.feedFrom initial name es fuel s .start 0

/-- The files a run left: those of the block directory's tree if it has one. -/
def Machine.filesLeft (m : Machine) (files : Tree) : Tree × List String :=
  match m.disk with
  | some (.directory d) => (d.tree, d.misses)
  | _ => (files, [])

/-- Opens the named sources, or gives the first that cannot be opened. -/
def openAll (files : Tree) : List String → Except PathError (List (String × Handle))
  | [] => .ok []
  | n :: ns => do
    let h ← files.openRead n
    let rest ← openAll files ns
    return (n, h) :: rest

/-- Whether an opened source is a directory. -/
def isDir : Handle → Bool
  | .dir => true
  | .file _ => false

/-- Feeds sources in order: every line of each file, until a directory, which cannot be
read. -/
def Session.feed (initial : Tree) (s : Session) : List (String × Handle) → Session
  | [] => s
  | (n, .dir) :: _ => { s with log := s.log.error (.ofString ("read " ++ n ++ ": is a directory")) }
  | (n, .file es) :: rest => (s.feedFile initial n es).feed initial rest

/-- Runs source files and then standard input on one machine. -/
def runSources (p : Parsed) (inv : Invocation) : Outcome :=
  let settings := Settings.ofAdjustments (options p inv.files ++ [.output true])
  let (m, e) := Machine.create (p.int memFlag).toNat settings
  let s : Session := ({ log := {}, stdout := [], machine := m } : Session).absorb
  match e with
  | some e =>
    let log := s.log.error e.message
    ⟨log.exitCode, s.stdout, log.written, inv.files, []⟩
  | none =>
    let s := match openAll inv.files p.args with
      | .error e => { s with log := s.log.error (.ofString e.message) }
      | .ok sources =>
        let s := s.feed inv.files sources
        if sources.any (isDir ·.2) then s
        else s.processLines (Stream.lines ⟨"<stdin>", inv.stdin⟩)
    let s := s.step flushOutput
    let s := if (p.text blocksFlag).isEmpty then s else s.step reset
    let (files, missing) := Machine.filesLeft s.machine inv.files
    ⟨s.log.exitCode, s.stdout, s.log.written, files, missing⟩

/-- Runs the arguments as check scripts. -/
def runChecks (p : Parsed) (inv : Invocation) : Outcome :=
  let opts := options p inv.files
  let finish := fun (log : Logger) (files : Tree) (missing : List String) =>
    (⟨log.exitCode, [], log.written, files, missing⟩ : Outcome)
  if p.args.isEmpty then finish (Logger.error {} (.ofString "no check scripts given")) inv.files []
  else
    match openAll inv.files p.args with
    | .error e => finish (Logger.error {} (.ofString e.message)) inv.files []
    | .ok sources =>
      match sources.find? (isDir ·.2) with
      | some (n, _) => finish (Logger.error {} (.ofString ("read " ++ n ++ ": is a directory"))) inv.files []
      | none =>
        let scripts := sources.map fun (n, h) => match h with
          | .file es => (⟨n, (inv.files.contents es).toList⟩ : Script)
          | .dir => ⟨n, []⟩
        let r := checkAll opts scripts
        let log := r.trace.foldl (fun (l : Logger) t => l.print "TRACE" t) {}
        let log := log.errorIf (r.failure.map Failure.message)
        match r.disk with
        | some (.directory d) => finish log d.tree d.misses
        | _ => finish log inv.files []

/-- Runs the command. -/
def run (inv : Invocation) : Outcome :=
  match parse flags inv.args [] with
  | .error .help => ⟨0, [], usage programName flags, inv.files, []⟩
  | .error e => ⟨2, [], e.message ++ [0x0A] ++ usage programName flags, inv.files, []⟩
  | .ok p => if p.bool checkFlag then runChecks p inv else runSources p inv

theorem options_stepBudget (p : Parsed) (files : Tree) :
    (Settings.ofAdjustments (options p files)).stepBudget = p.int stepsFlag := by
  unfold options Settings.ofAdjustments
  dsimp only
  split <;> split <;> simp [Settings.adjust]

end ForthMachine.Cli
