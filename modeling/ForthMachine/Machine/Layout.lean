import ForthMachine.Machine.Vocabulary
import ForthMachine.Machine.Outer

/-!
# Laying out a machine

A new machine clears its region and carves it up from the top: the data stack, below it
the control stack (two cells per entry), below that the return stack, whose base is the
data limit; with a block device, the two block buffers lie just under the data limit,
and the dictionary runs from offset 8 up to them. The number base goes into cell 4, and
every primitive word is installed as a builtin whose body is its primitive token and a
return.

Layout fails when a stack has no room, when the base lies outside 2 to 36, when the
stacks and buffers do not fit the region, or when a primitive lacks a name or an action
or does not fit the dictionary.

The main statement is `regionSize_le`: a machine never uses more than 16 MiB.
-/

namespace ForthMachine

open ForthMachine.Text ForthMachine.Memory ForthMachine.Block

/-- Installs one primitive as a builtin word. -/
def installPrimitive (p : Primitive) : Vm Unit := do
  let m ← get
  if p.name.isEmpty then throw (.unnamedPrimitive m.prims.size)
  if p.action.isNone then throw (.noFunction p.name)
  let idx := m.prims.size
  if idx > Token.maxArg.toNat then throw (.tooManyPrimitives p.name)
  let name := foldName m.settings.caseSensitive p.name
  let need := (alignUp name.length.toUInt32).toNat + headerSize.toNat + 8
  if m.here.toNat + need > m.dictLimit.toNat then throw (.noRoomForBuiltin name)
  set { m with prims := m.prims.push p }
  let _ ← define name (p.flags ||| flagBuiltin)
  let _ ← compileToken .prim idx.toUInt32
  let _ ← compileToken .exit 0

/-- Installs primitives in order. -/
def installAll (ps : List Primitive) : Vm Unit := ps.forM installPrimitive

/-- The sizes in bytes of the data, control and return stacks, as 64-bit quantities. -/
def stackSizes (s : Settings) : Nat × Nat × Nat :=
  ((s.dataCap.toNat * 4) % UInt64.size, (s.controlCap.toNat * 8) % UInt64.size,
   (s.returnCap.toNat * 4) % UInt64.size)

/-- Checks the configuration: positive stack capacities and a base between 2 and 36. -/
def checkSettings (s : Settings) : Vm Unit := do
  if s.dataCap ≤ 0 then throw (.invalidCapacity .data s.dataCap)
  if s.returnCap ≤ 0 then throw (.invalidCapacity .ret s.returnCap)
  if s.controlCap ≤ 0 then throw (.invalidCapacity .control s.controlCap)
  if s.radix < 2 || s.radix > 36 then throw (.invalidRadix s.radix)

/-- Lays the machine out afresh over its region and installs every primitive. -/
def layOut : Vm Unit := do
  let m ← get
  let size := m.region.bytes.size
  set { m with region := Region.zeroed size }
  let s := m.settings
  checkSettings s
  let (dsSize, csSize, rsSize) := stackSizes s
  let bkSize := if s.disk.isSome then 2 * blockSize else 0
  let need := (dictBase.toNat + bkSize + rsSize + csSize + dsSize) % UInt64.size
  if need > size then throw (.regionTooSmall size ((need + UInt64.size - 8) % UInt64.size))
  let dsBase := size.toUInt32 - dsSize.toUInt32
  let csBase := dsBase - csSize.toUInt32
  let rsBase := csBase - rsSize.toUInt32
  let dictLimit := rsBase - bkSize.toUInt32
  let cache := if s.disk.isSome then
      some (Cache.new ⟨dictLimit, spaces blockSize, 0, .empty⟩
        ⟨dictLimit + blockSize.toUInt32, spaces blockSize, 0, .empty⟩)
    else none
  if let some c := cache then
    changeRegion fun r => (r.storeSlot c.active).storeSlot c.older
  modify fun m =>
    { m with data := .empty .data dsBase s.dataCap.toNat.toUInt32,
             control := .empty .control csBase (s.controlCap.toNat.toUInt32 * 2),
             ret := .empty .ret rsBase s.returnCap.toNat.toUInt32,
             dataLimit := rsBase, dictLimit := dictLimit,
             cache := cache,
             here := dictBase, latest := 0, compiling := false, openWord := 0,
             ip := 0, cur := 0, steps := 0 }
  storCell baseAddr (Cell.ofInt s.radix)
  trace "#" fun _ => Bytes.ofString ("layout dict:" ++ toString dictBase.toNat ++ "-" ++
    toString dictLimit.toNat ++ " data:" ++ toString rsBase.toNat ++ " rs:" ++
    toString rsBase.toNat ++ " cs:" ++ toString csBase.toNat ++ " ds:" ++
    toString dsBase.toNat ++ " end:" ++ toString size)
  modify fun m => { m with prims := runtimeWords.toArray }
  installAll compilerWords
  installAll (s.library.getD builtinLibrary)
  if s.disk.isSome then installAll blockWords
  installAll s.extra

/-- The region size a machine uses for a requested size: at most 16 MiB, whole cells. -/
def regionSize (n : Nat) : Nat := min n maxRegion / 4 * 4

/-- A machine with the given settings over a region of `n` bytes, before layout. -/
def Machine.blank (n : Nat) (s : Settings) : Machine where
  settings := s
  region := Region.zeroed (regionSize n)
  here := dictBase
  latest := 0
  dictLimit := 0
  dataLimit := 0
  compiling := false
  openWord := 0
  openHere := 0
  openLatest := 0
  data := .empty .data 0 0
  ret := .empty .ret 0 0
  control := .empty .control 0 0
  ip := 0
  cur := 0
  steps := 0
  line := []
  rest := []
  token := []
  prims := #[]
  cache := none
  disk := s.disk
  sink := s.sink
  trace := #[]

/-- Creates a machine over a region of `n` bytes; on failure, also the state it reached,
whose trace tells how far layout got. -/
def Machine.create (n : Nat) (s : Settings) : Machine × Option MachineError :=
  match layOut.run (Machine.blank n s) with
  | .ok _ m => (m, none)
  | .error e m => (m, some e)

/-- Writes back updated blocks, then lays the machine out afresh. -/
def reset : Vm Unit := do
  if (← get).cache.isSome then withCache Cache.flush
  layOut

theorem regionSize_le (n : Nat) : regionSize n ≤ maxRegion := by
  unfold regionSize
  have := Nat.div_mul_le_self (min n maxRegion) 4
  have := Nat.min_le_right n maxRegion
  omega

end ForthMachine
