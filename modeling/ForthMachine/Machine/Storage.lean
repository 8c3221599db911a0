import ForthMachine.Machine.Library

/-!
# Block storage words

With a block device the machine keeps two block buffers in the region, right above the
dictionary, and programs reach blocks through them:

* `block ( n -- addr )` makes block `n` resident, reading it if needed;
* `buffer ( n -- addr )` assigns block `n` a buffer without reading it;
* `update` marks the active block modified; `flush` writes modified blocks back and empties
  the buffers; `empty-buffers` forgets them.

Block numbers run from 0 to 65535. The buffers' bytes are the region's: programs change
them with ordinary stores, and the cache reads and writes them in place.
-/

namespace ForthMachine

open ForthMachine.Text ForthMachine.Memory ForthMachine.Block

/-- A slot with its buffer read from the region. -/
def Machine.loadSlot (m : Machine) (s : Slot) : Slot :=
  match m.region.slice s.addr blockSize with
  | .ok bs => { s with buf := ⟨bs.toArray⟩ }
  | .error _ => s

/-- Stores a slot's buffer back into the region; a slot that does not fit changes nothing. -/
def Memory.Region.storeSlot (r : Region) (s : Slot) : Region :=
  if s.addr.toNat + s.buf.toList.length > r.bytes.size then r
  else r.writeAt s.addr.toNat s.buf.toList

/-- Runs a cache operation on the machine's cache and device, the slot buffers being the
region's bytes. -/
def withCache {α : Type} (op : CacheM Disk α) : Vm α := do
  let m ← get
  match m.cache with
  | none => throw (MachineError.block CacheError.noDevice)
  | some c =>
    let c := ⟨m.loadSlot c.active, m.loadSlot c.older⟩
    let (outcome, c', d') := match op.run (c, m.disk) with
      | .ok a (c', d') => (Except.ok a, c', d')
      | .error e (c', d') => (Except.error e, c', d')
    modify fun m => { m with cache := some c', disk := d' }
    changeRegion fun r => (r.storeSlot c'.active).storeSlot c'.older
    match outcome with
    | .ok a => return a
    | .error e => throw (.block e)

/-- Pops a block number, which must lie between 0 and 65535. -/
def popBlockIndex : Vm UInt16 := do
  let n := Cell.toInt (← pop .data)
  if n < 0 || n > 0xFFFF then throw (.blockOutOfRange n)
  return n.toNat.toUInt16

/-- Gets a block's buffer address with a cache operation and pushes it. -/
def blockAddr (fetchAddr : UInt16 → CacheM Disk UInt32) : Vm Unit := do
  if (← get).cache.isNone then throw (MachineError.block CacheError.noDevice)
  let idx ← popBlockIndex
  let addr ← withCache (fetchAddr idx)
  trace "#" fun _ => Bytes.ofString ("block " ++ toString idx.toNat ++ " @" ++ toString addr.toNat)
  push .data addr

/-- Runs a block word. -/
def BlockWord.run : BlockWord → Vm Unit
  | .block => blockAddr Cache.block
  | .buffer => blockAddr Cache.buffer
  | .emptyBuffers => modify fun m => { m with cache := m.cache.map Cache.emptyBuffers }
  | .update => modify fun m => { m with cache := m.cache.map Cache.update }
  | .flush => do if (← get).cache.isSome then withCache Cache.flush

end ForthMachine
