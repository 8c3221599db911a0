import ForthMachine.Text.Quoted
import ForthMachine.Text.CaseFold
import ForthMachine.Memory.Region
import ForthMachine.Machine.Stack
import ForthMachine.Machine.Sink
import ForthMachine.Block.Cache

/-!
# Errors and faults

Every way an operation of the machine can fail is a constructor of `MachineError`; its
text is given by `MachineError.message` and its class, the kind a caller tests for, by
`MachineError.kind`. A `Fault` is an error raised while processing a line, together with
the input token being processed, the word that was running and the line itself.

The main statement is `Fault.message_of_empty`: a fault with neither token nor word
shows just its error.
-/

namespace ForthMachine

open ForthMachine.Text ForthMachine.Memory ForthMachine.Block

/-- The classes of errors that callers distinguish. -/
inductive ErrorKind where
  | stackUnderflow | stackOverflow | outOfMemory | dictionaryFull | unknownWord
  | unbalancedControlFlow | nestedDefinition | stepBudgetExceeded | invalidAddress
  | compileOnly | missingName | divisionByZero | invalidToken | invalidRadix
  | blockOutOfRange | blockIO | primitivePanic | other
  deriving DecidableEq, Repr

/-- The control structures that the compiler keeps open on the control stack. -/
inductive Fixup where
  | none | ifMark | elseMark | beginMark | whileMark | doMark
  /-- A cell in the kind's place that names no kind, as when a program wrote there. -/
  | unknown (code : UInt32)
  deriving DecidableEq, Repr

namespace Fixup

/-- The cell that records a fixup kind on the control stack. -/
def code : Fixup → UInt32
  | .none => 0 | .ifMark => 1 | .elseMark => 2 | .beginMark => 3 | .whileMark => 4
  | .doMark => 5 | .unknown c => c

/-- The fixup kind recorded in a cell. -/
def ofCode (c : UInt32) : Fixup :=
  match c with
  | 0 => .none | 1 => .ifMark | 2 => .elseMark | 3 => .beginMark | 4 => .whileMark
  | 5 => .doMark | c => .unknown c

/-- How a fixup kind is named in messages. -/
def name : Fixup → String
  | .none => "none" | .ifMark => "if" | .elseMark => "else" | .beginMark => "begin"
  | .whileMark => "while" | .doMark => "do"
  | .unknown c => "fixup(" ++ toString c.toNat ++ ")"

end Fixup

/-- Everything that can go wrong in the machine. -/
inductive MachineError where
  | stack (e : StackError)
  /-- Allocation of `need` bytes with only `free` left in the dictionary. -/
  | outOfMemory (need free : UInt32)
  /-- A transient string that does not fit above the dictionary. -/
  | noRoomForString (n : UInt32)
  /-- A region too small for the stacks and buffers. -/
  | regionTooSmall (size need : Nat)
  | dictionaryFull (name : Bytes)
  | noRoomForBuiltin (name : Bytes)
  /-- A token that is neither a word nor a literal. -/
  | unknownWord
  /-- A name operand that is no word. -/
  | unknownName (name : Bytes)
  /-- A control word that does not match the open structure. -/
  | unbalanced (want : List Fixup) (got : Fixup)
  | nestedDefinition
  | stepBudgetExceeded
  | address (e : AddrError)
  /-- An execution token that is no word header. -/
  | noWordAt (xt : UInt32)
  | compileOnly
  /-- A parsing word at the end of the line. -/
  | missingName (after : Bytes)
  | unnamedPrimitive (index : Nat)
  | divisionByZero
  | invalidToken (addr cell : UInt32)
  | invalidRadix (r : Int)
  | blockOutOfRange (n : Int)
  | block (e : CacheError)
  /-- A host primitive gave up with a value. -/
  | panicked (value : String)
  /-- A host primitive ended the processing abruptly. -/
  | exited
  /-- A host primitive reported an error. -/
  | host (message : String)
  | sink (e : SinkError)
  | invalidCapacity (stack : StackName) (n : Int)
  | noFunction (name : Bytes)
  | tooManyPrimitives (name : Bytes)
  deriving DecidableEq

namespace MachineError

/-- The class of an error. -/
def kind : MachineError → ErrorKind
  | .stack ⟨_, .underflow⟩ => .stackUnderflow
  | .stack ⟨_, .overflow⟩ => .stackOverflow
  | .outOfMemory .. | .noRoomForString _ | .regionTooSmall .. => .outOfMemory
  | .dictionaryFull _ | .noRoomForBuiltin _ => .dictionaryFull
  | .unknownWord | .unknownName _ => .unknownWord
  | .unbalanced .. => .unbalancedControlFlow
  | .nestedDefinition => .nestedDefinition
  | .stepBudgetExceeded => .stepBudgetExceeded
  | .address _ | .noWordAt _ => .invalidAddress
  | .compileOnly => .compileOnly
  | .missingName _ | .unnamedPrimitive _ => .missingName
  | .divisionByZero => .divisionByZero
  | .invalidToken .. => .invalidToken
  | .invalidRadix _ => .invalidRadix
  | .blockOutOfRange _ => .blockOutOfRange
  | .block _ => .blockIO
  | .panicked _ | .exited => .primitivePanic
  | .host _ | .sink _ | .invalidCapacity .. | .noFunction _ | .tooManyPrimitives _ => .other

/-- The message of an unbalanced control structure. -/
def unbalancedText (want : List Fixup) (got : Fixup) : String :=
  match want, got with
  | [], g => "unbalanced control flow: unclosed " ++ g.name
  | w :: _, .none => "unbalanced control flow: missing " ++ w.name
  | w :: _, g => "unbalanced control flow: " ++ g.name ++ " where " ++ w.name ++ " expected"

/-- The text of an error. -/
def message : MachineError → Bytes
  | .stack e => .ofString e.message
  | .outOfMemory need free =>
    .ofString ("out of memory: need " ++ toString need.toNat ++ " bytes, " ++
      toString free.toNat ++ " free")
  | .noRoomForString n =>
    .ofString ("out of memory: no room for a " ++ toString n.toNat ++ " byte string")
  | .regionTooSmall size need =>
    .ofString ("out of memory: " ++ toString size ++ " byte region cannot hold " ++
      toString need ++ " bytes of stacks and buffers")
  | .dictionaryFull name => .ofString "dictionary full: no room for " ++ quote name
  | .noRoomForBuiltin name => .ofString "dictionary full: no room for builtin " ++ quote name
  | .unknownWord => .ofString "unknown word"
  | .unknownName name => .ofString "unknown word " ++ quote name
  | .unbalanced want got => .ofString (unbalancedText want got)
  | .nestedDefinition => .ofString "nested definition"
  | .stepBudgetExceeded => .ofString "step budget exceeded"
  | .address e => e.message
  | .noWordAt xt => .ofString ("invalid address: no word @" ++ toString xt.toNat)
  | .compileOnly => .ofString "compile only word"
  | .missingName after => .ofString "missing name after " ++ quote after
  | .unnamedPrimitive i => .ofString ("missing name for primitive #" ++ toString i)
  | .divisionByZero => .ofString "division by zero"
  | .invalidToken addr cell =>
    .ofString "invalid token 0x" ++ hexLower cell.toNat ++ .ofString (" @" ++ toString addr.toNat)
  | .invalidRadix r => .ofString ("invalid radix " ++ toString r)
  | .blockOutOfRange n => .ofString ("block out of range: " ++ toString n)
  | .block e => .ofString e.message
  | .panicked v => .ofString ("primitive panic: " ++ v)
  | .exited => .ofString "primitive panic: ProcessLine called runtime.Goexit"
  | .host m => .ofString m
  | .sink e => .ofString e.message
  | .invalidCapacity s n =>
    .ofString ("invalid " ++ s.text ++ " stack capacity " ++ toString n)
  | .noFunction name => .ofString "primitive " ++ quote name ++ .ofString " has no function"
  | .tooManyPrimitives name => .ofString "too many primitives, cannot install " ++ quote name

/--
Errors raised while reading or compiling input, before anything was executed; a fault
of this kind leaves the data stack as it was. Running out of memory counts only while a
definition is being compiled.
-/
def isCompileError (e : MachineError) (compiling : Bool) : Bool :=
  match e.kind with
  | .outOfMemory => compiling
  | .unknownWord | .nestedDefinition | .unbalancedControlFlow | .compileOnly | .missingName
  | .invalidRadix | .dictionaryFull => true
  | _ => false

end MachineError

/-- Why processing a line stopped. -/
structure Fault where
  error : MachineError
  /-- The input token being processed, if any. -/
  token : Bytes
  /-- The word that was running, if any. -/
  word : Bytes
  /-- The whole line. -/
  line : Bytes
  deriving DecidableEq

/--
The message of a fault: the error, then the token in quotes, then the word that was
running unless it is the token itself (in any case).
-/
def Fault.message (f : Fault) : Bytes :=
  f.error.message ++
    (if f.token.isEmpty then [] else .ofString " processing " ++ quote f.token) ++
    (if f.word.isEmpty || equalFold f.word f.token then [] else .ofString " in " ++ f.word)

theorem Fault.message_of_empty (e : MachineError) (l : Bytes) :
    Fault.message ⟨e, [], [], l⟩ = e.message := by
  simp [Fault.message]

/-- How a processed line failed: a fault, or output that could not be flushed. -/
inductive LineError where
  | fault (f : Fault)
  | flush (e : SinkError)
  deriving DecidableEq

/-- The message of a line error. -/
def LineError.message : LineError → Bytes
  | .fault f => f.message
  | .flush e => .ofString e.message

/-- The class of a line error. -/
def LineError.kind : LineError → ErrorKind
  | .fault f => f.error.kind
  | .flush _ => .other

end ForthMachine
