import ForthMachine.Block.Cache
import ForthMachine.Block.Disk
import ForthMachine.Character.Literal
import ForthMachine.Character.Terminal
import ForthMachine.Cli.Flags
import ForthMachine.Cli.Invocation
import ForthMachine.Cli.Program
import ForthMachine.Cli.Wrappers
import ForthMachine.Files.Tree
import ForthMachine.Input.Lines
import ForthMachine.Log.Logger
import ForthMachine.Machine.Cell
import ForthMachine.Machine.Compile
import ForthMachine.Machine.Compiler
import ForthMachine.Machine.Dictionary
import ForthMachine.Machine.Error
import ForthMachine.Machine.Host
import ForthMachine.Machine.Inner
import ForthMachine.Machine.Layout
import ForthMachine.Machine.Library
import ForthMachine.Machine.Listing
import ForthMachine.Machine.Outer
import ForthMachine.Machine.Reader
import ForthMachine.Machine.Session
import ForthMachine.Machine.Sink
import ForthMachine.Machine.Stack
import ForthMachine.Machine.State
import ForthMachine.Machine.Storage
import ForthMachine.Machine.Token
import ForthMachine.Machine.Vocabulary
import ForthMachine.Main
import ForthMachine.Memory.Region
import ForthMachine.Proofs.ColonRecord
import ForthMachine.Proofs.FaultRecovery
import ForthMachine.Proofs.OpenDefinition
import ForthMachine.Proofs.Runs
import ForthMachine.Script.Check
import ForthMachine.Text.Blank
import ForthMachine.Text.CaseFold
import ForthMachine.Text.Numeral
import ForthMachine.Text.Printable
import ForthMachine.Text.Quoted
import ForthMachine.Text.Utf8
import ForthMachine.Proofs.Partition
import ForthMachine.Proofs.PartitionKept
import ForthMachine.Proofs.OperationFrame
import ForthMachine.Proofs.RunFrame
import ForthMachine.Proofs.StepBudget
import ForthMachine.Proofs.Oblivious
import ForthMachine.Proofs.LineSplit
import ForthMachine.Proofs.CacheUpdates
import ForthMachine.Proofs.LoopExit
import ForthMachine.Proofs.DefinedName
import ForthMachine.Proofs.FreshLayout
import ForthMachine.Proofs.NumberLiterals
import ForthMachine.Proofs.CacheRecency
import ForthMachine.Proofs.StackWords
import ForthMachine.Proofs.Division
import ForthMachine.Proofs.HostCalls
import ForthMachine.Proofs.Fixture
import ForthMachine.Proofs.Creation
import ForthMachine.Proofs.ScriptVerdict
import ForthMachine.Proofs.Leftovers
import ForthMachine.Proofs.DictionaryWalk
import ForthMachine.Input.Queue
import ForthMachine.Proofs.QueueLines
import ForthMachine.Proofs.MethodPattern
import ForthMachine.Proofs.EncodedText
import ForthMachine.Proofs.WrapperGenerator
import ForthMachine.Proofs.CursorOrder
import ForthMachine.Proofs.CompiledTokens
import ForthMachine.Proofs.BlockBuffers
import ForthMachine.Proofs.FreshStart
import ForthMachine.Proofs.RegionAccess
import ForthMachine.Proofs.LineTokens
import ForthMachine.Proofs.FixupPairs
import ForthMachine.Proofs.PartitionWords
import ForthMachine.Proofs.StackIsolation
import ForthMachine.Proofs.NameLookup
