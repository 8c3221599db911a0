import ForthMachine.Machine.Error
import ForthMachine.Machine.Cell
import ForthMachine.Machine.Token
import ForthMachine.Block.Disk

/-!
# The machine state

The machine owns one memory region. The dictionary grows upward from offset 8; above the
dictionary's limit lie the two block buffers (when there is a block device), then the
stacks' partition. Cell 4 holds the number base. Programs may address everything from
offset 4 up to the data limit, which is the dictionary's limit plus the block buffers.

Besides the region, the state holds the cursors into it (`here`, the newest header), the
interpreter's mode and open definition, the three stacks, the inner interpreter's
registers, the line being read, the primitive table, the block cache and its device, the
output sink and the trace.

Machine operations run in `Vm`, a state monad with errors in which the state reached at
an error is kept: like the machine itself, nothing is rolled back when an operation fails
half way.

The region writers check first and then change the region in place; `storCell_run`,
`storByte_run` and `copyIn_run` say that this is the region's own checked write.
-/

namespace ForthMachine

open ForthMachine.Text ForthMachine.Memory ForthMachine.Block

/-! ## Words and their flags -/

/-- Immediate words run even while compiling. -/
def flagImmediate : UInt8 := 1
/-- Hidden words are skipped by lookup; a definition is hidden until its `;`. -/
def flagHidden : UInt8 := 2
/-- Builtin words are primitives; compiling one inlines its token. -/
def flagBuiltin : UInt8 := 4
/-- Compile-only words fault when used while interpreting. -/
def flagCompileOnly : UInt8 := 8
/-- Loop-only words may only be compiled inside a counted loop. -/
def flagLoopOnly : UInt8 := 16

/-- Whether a flag is set in a flag byte. -/
def hasFlag (flags f : UInt8) : Bool := flags &&& f != 0

/-- The named flags of a flag byte, joined by `|`. -/
def flagsText (flags : UInt8) : String :=
  "|".intercalate <| [(flagImmediate, "immediate"), (flagHidden, "hidden"),
    (flagBuiltin, "builtin"), (flagCompileOnly, "compile-only")].filterMap fun (f, n) =>
    if hasFlag flags f then some n else none

/-! ## Primitives -/

/-- The words of the compiler, always present. -/
inductive CompilerWord where
  /-- Types a compiled string; reached only through compiled code. -/
  | typeString
  | colon | semicolon | immediate | recurse | literal | exit
  | ifWord | elseWord | thenWord | begin | untilWord | again | whileWord | repeatWord
  | doWord | loopWord | plusLoop | loopIndex | outerIndex | leave | unloop
  | comment | lineComment | dotQuote | sQuote | char | bracketChar
  | constant | variable | create | allot | comma | cComma | here
  deriving DecidableEq, Repr

/-- Two-operand arithmetic, comparison and bit operations on cells. -/
inductive BinaryOp where
  | add | sub | mul | min | max | eq | ne | lt | gt | ult | and | or | xor | lshift | rshift
  deriving DecidableEq, Repr

/-- One-operand operations on cells. -/
inductive UnaryOp where
  | negate | abs | inc | dec | twice | halve | zeroEq | zeroLt | zeroGt | invert
  | cells | cellPlus
  deriving DecidableEq, Repr

/-- What a division word leaves. -/
inductive DivisionResult where
  | quotient | remainder | both
  deriving DecidableEq, Repr

/-- The words of the builtin library. -/
inductive LibraryWord where
  /-- Pops `arity` cells and pushes them back in the order `perm` gives, bottom first. -/
  | shuffle (arity : Nat) (perm : List Nat)
  | drop (n : Nat)
  | qdup | pick | depth
  | toR | fromR | fetchR
  | binary (op : BinaryOp)
  | unary (op : UnaryOp)
  | divide (r : DivisionResult)
  | pushConst (v : UInt32)
  | fetch | store | cFetch | cStore | plusStore
  | setRadix (r : UInt32)
  | emit | dot | uDot | dotS | cr | space | spaces | type
  | words | see | tick | execute
  deriving DecidableEq, Repr

/-- The words of block storage, present with a block device. -/
inductive BlockWord where
  | block | buffer | emptyBuffers | update | flush
  deriving DecidableEq, Repr

/-- What a host primitive does. A host installs primitives of its own beside the builtin words;
the machine has a closed set of such behaviours: pushing a value, giving up (a panic or an
abrupt exit), reporting an error, writing text, and the stack and memory operations a host
reaches through the machine's calls. A host function in general, which could do anything to
the machine or call back into it, is left out, and what is proved of host primitives is proved
of these. -/
inductive HostAction where
  | pushValue (v : UInt32)
  /-- Gives up, with a value to report. -/
  | panic (value : String)
  /-- Ends processing abruptly. -/
  | exit
  /-- Reports an error with this text. -/
  | fail (message : String)
  /-- Writes text to the output. -/
  | print (text : String)
  /-- Pops three cells and pushes their sum. -/
  | add3
  /-- Pushes the cell `n` down from the top. -/
  | peekAt (n : Int)
  /-- Pops an address and pushes the cell there. -/
  | load
  /-- Pops an address, then a value, and stores the value there. -/
  | store
  deriving DecidableEq, Repr

/-- What a primitive does. -/
inductive Action where
  | compiler (w : CompilerWord)
  | library (w : LibraryWord)
  | blocks (w : BlockWord)
  | host (h : HostAction)
  deriving DecidableEq, Repr

/-- A primitive word: its name, flags, and action (`none` for a primitive without one). -/
structure Primitive where
  name : Bytes
  flags : UInt8
  action : Option Action
  deriving DecidableEq, Repr

/-! ## Configuration -/

/-- How a machine is configured before it is laid out. -/
structure Settings where
  dataCap : Int := 64
  returnCap : Int := 64
  controlCap : Int := 16
  radix : Int := 10
  caseSensitive : Bool := false
  stepBudget : Int := 0
  /-- The library replacing the builtin one, if any. -/
  library : Option (List Primitive) := none
  extra : List Primitive := []
  disk : Option Disk := none
  tracing : Bool := false
  sink : Sink := {}

/-- One configuration step; a list of them is applied in order. -/
inductive Adjustment where
  | dataStack (cells : Int)
  | returnStack (cells : Int)
  | controlStack (entries : Int)
  | radix (r : Int)
  | caseSensitive (b : Bool)
  | stepBudget (steps : Int)
  /-- Replaces the builtin library. -/
  | builtins (ps : List Primitive)
  /-- Adds host primitives after all other words. -/
  | primitives (ps : List Primitive)
  | blocks (d : Disk)
  | trace
  /-- Replaces the output: the primary channel, or nothing. -/
  | output (primary : Bool)
  /-- Copies output to a further channel; `none` copies nowhere. -/
  | tee (k : Option TeeKind)

/-- Applies one adjustment. -/
def Settings.adjust (s : Settings) : Adjustment → Settings
  | .dataStack n => { s with dataCap := n }
  | .returnStack n => { s with returnCap := n }
  | .controlStack n => { s with controlCap := n }
  | .radix r => { s with radix := r }
  | .caseSensitive b => { s with caseSensitive := b }
  | .stepBudget n => { s with stepBudget := n }
  | .builtins ps => { s with library := some ps }
  | .primitives ps => { s with extra := s.extra ++ ps }
  | .blocks d => { s with disk := some d }
  | .trace => { s with tracing := true }
  | .output p => { s with sink := if p then ⟨[{ kind := .primary }]⟩ else {} }
  | .tee none => s
  | .tee (some k) => { s with sink := s.sink.addTee k }

/-- Applies adjustments in order, starting from the defaults. -/
def Settings.ofAdjustments (as : List Adjustment) : Settings :=
  as.foldl Settings.adjust {}

/-! ## The machine -/

/-- The offset of the cell holding the number base. -/
def baseAddr : UInt32 := 4
/-- The offset where the dictionary starts. -/
def dictBase : UInt32 := 8
/-- The size of a word header: link and info cells. -/
def headerSize : UInt32 := 8
/-- The longest word name, in bytes. -/
def maxNameLen : Nat := 31
/-- The largest region the machine uses, 16 MiB (2²⁴ bytes); body offsets must fit a token
argument. -/
def maxRegion : Nat := 16777216

/-- The whole state of a machine. -/
structure Machine where
  settings : Settings
  region : Region
  /-- The next free dictionary byte. -/
  here : UInt32
  /-- The newest word header, or 0. -/
  latest : UInt32
  dictLimit : UInt32
  dataLimit : UInt32
  compiling : Bool
  /-- The header of the definition being compiled, or 0. -/
  openWord : UInt32
  /-- `here` and `latest` from before the open definition's `:`. -/
  openHere : UInt32
  openLatest : UInt32
  data : Stack
  ret : Stack
  control : Stack
  /-- The inner interpreter's next code cell. -/
  ip : UInt32
  /-- The header of the word whose body the inner interpreter is in, or 0. -/
  cur : UInt32
  /-- Tokens dispatched while processing the current line. -/
  steps : Nat
  /-- The line being processed, and the part not yet read. -/
  line : Bytes
  rest : Bytes
  /-- The input token being processed. -/
  token : Bytes
  prims : Array Primitive
  cache : Option Cache
  disk : Option Disk
  sink : Sink
  trace : Array Bytes

/-- Machine operations: state with errors, keeping the state reached at an error. -/
abbrev Vm := EStateM MachineError Machine

namespace Vm

/-- Fails with an error. -/
def fail {α : Type} (e : MachineError) : Vm α := throw e

/-- Lifts a region access, turning a refused address into an error. -/
def ofRegion {α : Type} (r : Except AddrError α) : Vm α :=
  match r with
  | .ok a => pure a
  | .error e => throw (.address e)

/-- Lifts a stack operation, turning its failure into an error. -/
def ofStack {α : Type} (r : Except StackError α) : Vm α :=
  match r with
  | .ok a => pure a
  | .error e => throw (.stack e)

end Vm

/-- The stack with a given role. -/
def Machine.stack (m : Machine) : StackName → Stack
  | .data => m.data
  | .ret => m.ret
  | .control => m.control

/-- Replaces the stack with a given role. -/
def Machine.setStack (m : Machine) : StackName → Stack → Machine
  | .data, s => { m with data := s }
  | .ret, s => { m with ret := s }
  | .control, s => { m with control := s }

/-- Records a trace line `mark message`, when tracing. -/
def trace (mark : String) (message : Unit → Bytes) : Vm Unit :=
  modify fun m =>
    if m.settings.tracing then
      { m with trace := m.trace.push (Bytes.ofString (mark ++ " ") ++ message ()) }
    else m

/-- Writes bytes to the output. -/
def emitBytes (p : Bytes) : Vm Unit := do
  let m ← get
  let (sink, e) := m.sink.write ⟨p.toArray⟩
  set { m with sink := sink }
  match e with
  | some e => throw (.sink e)
  | none => pure ()

/-- Reads a cell of the region. -/
def loadCell (addr : UInt32) : Vm UInt32 := do Vm.ofRegion ((← get).region.loadCell addr)

/-- Takes the region out of the machine, which holds an empty one meanwhile: the taker then
holds the only reference, so a change to it happens in place. -/
def takeRegion : Vm Region :=
  modifyGet fun m => (m.region, { m with region := ⟨ByteArray.empty⟩ })

/-- Changes the region by a total function, in place. -/
def changeRegion (f : Region → Region) : Vm Unit := do
  let r ← takeRegion
  modify fun m => { m with region := f r }

/-- Writes a cell of the region: the checks of `Region.storCell`, then its write. -/
def storCell (addr v : UInt32) : Vm Unit := do
  Vm.ofRegion ((← get).region.checkCell addr .stor)
  changeRegion (·.writeAt addr.toNat (bytesOfCell v))

/-- Reads bytes of the region. -/
def slice (addr : UInt32) (n : Nat) : Vm Bytes := do Vm.ofRegion ((← get).region.slice addr n)

/-- Copies bytes into the region: the check of `Region.copyIn`, then its write. -/
def copyIn (addr : UInt32) (bs : Bytes) : Vm Unit := do
  Vm.ofRegion ((← get).region.check addr bs.length .slice)
  changeRegion (·.writeAt addr.toNat bs)

/-- Writes a byte of the region: the check of `Region.storByte`, then its write. -/
def storByte (addr : UInt32) (b : UInt8) : Vm Unit := do
  Vm.ofRegion ((← get).region.check addr 1 .stor)
  changeRegion (·.writeAt addr.toNat [b])

/-- Pushes a cell on a stack: a full stack overflows, else the cell is written above the
top, which the region may refuse. -/
def push (s : StackName) (v : UInt32) : Vm Unit := do
  let st := (← get).stack s
  if st.full then throw (.stack (st.err .overflow))
  storCell st.next v
  modify fun m => m.setStack s st.raise

/-- The cell `n` down from the top of a stack. -/
def peek (s : StackName) (n : UInt32) : Vm UInt32 := do
  loadCell (← Vm.ofStack (((← get).stack s).slot n))

/-- The cell `n` down from the top of a stack, `none` if it cannot be read. -/
def Machine.peek? (m : Machine) (s : StackName) (n : UInt32) : Option UInt32 :=
  match (m.stack s).slot n with
  | .ok a => match m.region.loadCell a with
    | .ok v => some v
    | .error _ => none
  | .error _ => none

/-- The cells of a stack, bottom first. -/
def Machine.cells (m : Machine) (s : StackName) : List UInt32 := (m.stack s).cells m.region

/-- Removes `n` cells from a stack. -/
def dropCells (s : StackName) (n : UInt32) : Vm Unit := do
  let st ← Vm.ofStack (((← get).stack s).lower n)
  modify fun m => m.setStack s st

/-- Pops a cell from a stack. -/
def pop (s : StackName) : Vm UInt32 := do
  let v ← peek s 0
  dropCells s 1
  return v

/-- Replaces the cell `n` down from the top of a stack. -/
def poke (s : StackName) (n : UInt32) (v : UInt32) : Vm Unit := do
  storCell (← Vm.ofStack (((← get).stack s).slot n)) v

/-- Pops `n` data cells, returning them bottom first; fails before popping any if the
stack holds fewer. -/
def popN (n : Nat) : Vm (List UInt32) := do
  if (← get).data.depth < n.toUInt32 then throw (.stack ⟨.data, .underflow⟩)
  (List.range n).foldlM (fun acc _ => do return (← pop .data) :: acc) []

/-- Pushes cells on the data stack, first to last. -/
def pushAll (vs : List UInt32) : Vm Unit := vs.forM (push .data)

/-- The current number base, which must lie between 2 and 36. -/
def radix : Vm Nat := do
  let b ← loadCell baseAddr
  let v := Cell.toInt b
  if v < 2 || v > 36 then throw (.invalidRadix v)
  return v.toNat

/-- Checks a program access of `n` bytes: it must lie between cell 4 and the data limit. -/
def checkData (addr : UInt32) (n : Nat) (access : Access) : Vm Unit := do
  let m ← get
  if addr < baseAddr || addr.toNat + n > m.dataLimit.toNat then
    throw (.address ⟨addr, access, .outsideData⟩)

/-- Reads a cell on behalf of a program. -/
def loadData (addr : UInt32) : Vm UInt32 := do
  checkData addr 4 .load
  loadCell addr

/-- Writes a cell on behalf of a program. -/
def storData (addr v : UInt32) : Vm Unit := do
  checkData addr 4 .stor
  storCell addr v

/-- Reads bytes on behalf of a program. -/
def dataBytes (addr : UInt32) (n : Nat) : Vm Bytes := do
  checkData addr n .slice
  slice addr n

/-- Writing a cell is the region's checked cell write; a refused address changes nothing. -/
theorem storCell_run (m : Machine) (addr v : UInt32) :
    (storCell addr v).run m = match m.region.storCell addr v with
      | .ok r => .ok () { m with region := r }
      | .error e => .error (.address e) m := by
  simp only [storCell, changeRegion, takeRegion, Region.storCell, Vm.ofRegion, EStateM.run_bind,
    EStateM.run_get]
  cases h : m.region.checkCell addr .stor <;> rfl

/-- Writing a byte is the region's checked byte write; a refused address changes nothing. -/
theorem storByte_run (m : Machine) (addr : UInt32) (b : UInt8) :
    (storByte addr b).run m = match m.region.storByte addr b with
      | .ok r => .ok () { m with region := r }
      | .error e => .error (.address e) m := by
  simp only [storByte, changeRegion, takeRegion, Region.storByte, Vm.ofRegion, EStateM.run_bind,
    EStateM.run_get]
  cases h : m.region.check addr 1 .stor <;> rfl

/-- Copying bytes in is the region's checked copy; a refused range changes nothing. -/
theorem copyIn_run (m : Machine) (addr : UInt32) (bs : List UInt8) :
    (copyIn addr bs).run m = match m.region.copyIn addr bs with
      | .ok r => .ok () { m with region := r }
      | .error e => .error (.address e) m := by
  simp only [copyIn, changeRegion, takeRegion, Region.copyIn, Vm.ofRegion, EStateM.run_bind,
    EStateM.run_get]
  cases h : m.region.check addr bs.length .slice <;> rfl

end ForthMachine
