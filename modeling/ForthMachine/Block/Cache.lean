/-!
# The block cache

Block storage is a device of numbered 1024-byte blocks. The machine keeps at most two
blocks resident, in two buffers: the active slot (most recently used) and the older
one, which is evicted next. A slot is empty, assigned without being read (`buffer`),
read and unchanged (`clean`), or marked modified (`dirty`); dirty blocks are written back
before their slot is reused, and by `flush`.

The cache works over any device: `BlockDevice` says how to read a block into a buffer and
how to write a buffer out. A read may leave its mark on the buffer even when it fails.

The main statement is `update_state`: after `update` the active slot is dirty exactly when
it held a block.
-/

namespace ForthMachine.Block

/-- The size of a block and of each buffer. -/
def blockSize : Nat := 1024

/-- What a slot holds. -/
inductive SlotState where
  | empty | buffer | clean | dirty
  deriving DecidableEq, Repr

/-- How a slot state is written. -/
def SlotState.text : SlotState → String
  | .empty => "empty" | .buffer => "buffer" | .clean => "clean" | .dirty => "dirty"

/-- One cache buffer: where it lives, its bytes, and the block it holds. -/
structure Slot where
  addr : UInt32
  buf : ByteArray
  idx : UInt16
  state : SlotState

/-- Whether a slot holds block `idx`. -/
def Slot.holds (s : Slot) (idx : UInt16) : Bool := s.state != .empty && s.idx == idx

/-- The direction of a failed transfer. -/
inductive Transfer where
  | read | write
  deriving DecidableEq, Repr

/-- How a transfer direction is written. -/
def Transfer.text : Transfer → String
  | .read => "read"
  | .write => "write"

/-- A device failure, with the block and direction involved. -/
structure IOError where
  transfer : Transfer
  idx : UInt16
  reason : String
  deriving DecidableEq

/-- The message of a device failure, like `block read 3: device on fire`. -/
def IOError.message (e : IOError) : String :=
  "block " ++ e.transfer.text ++ " " ++
    toString e.idx.toNat ++ ": " ++ e.reason

/-- Why a cache operation failed. -/
inductive CacheError where
  | noDevice
  | io (e : IOError)
  deriving DecidableEq

/-- The message of a cache error. -/
def CacheError.message : CacheError → String
  | .noDevice => "no block device"
  | .io e => e.message

/-- A device of numbered blocks. -/
class BlockDevice (δ : Type) where
  /-- Reads block `idx` into a buffer; returns the buffer as left, and a failure reason. -/
  readBlock : δ → UInt16 → ByteArray → δ × ByteArray × Option String
  /-- Writes a buffer as block `idx`; returns a failure reason. -/
  writeBlock : δ → UInt16 → ByteArray → δ × Option String

/-- Two slots, the active one first. -/
structure Cache where
  active : Slot
  older : Slot

/-- A buffer of spaces. -/
def spaces (n : Nat) : ByteArray := ⟨Array.replicate n 0x20⟩

/-- A cache over two buffers: both empty, filled with spaces. -/
def Cache.new (a b : Slot) : Cache :=
  ⟨{ a with state := .empty, buf := spaces a.buf.size },
   { b with state := .empty, buf := spaces b.buf.size }⟩

/-- Cache operations thread the cache and the device, and may fail. -/
abbrev CacheM (δ : Type) := EStateM CacheError (Cache × Option δ)

variable {δ : Type} [BlockDevice δ]

/-- Writes a dirty slot back, making it clean; other slots are left alone. -/
def writeBack (dev : δ) (s : Slot) : δ × Except IOError Slot :=
  if s.state != .dirty then (dev, .ok s) else
  match BlockDevice.writeBlock dev s.idx s.buf with
  | (dev', some reason) => (dev', .error ⟨.write, s.idx, reason⟩)
  | (dev', none) => (dev', .ok { s with state := .clean })

/-- Writes back the active slot. -/
def writeBackActive : CacheM δ Unit := do
  let (c, dev) ← get
  match dev with
  | none => if c.active.state == .dirty then throw .noDevice else pure ()
  | some d =>
    match writeBack d c.active with
    | (d', .ok s) => set ({ c with active := s }, some d')
    | (d', .error e) => set (c, some d'); throw (.io e)

/-- Writes back the older slot. -/
def writeBackOlder : CacheM δ Unit := do
  let (c, dev) ← get
  match dev with
  | none => if c.older.state == .dirty then throw .noDevice else pure ()
  | some d =>
    match writeBack d c.older with
    | (d', .ok s) => set ({ c with older := s }, some d')
    | (d', .error e) => set (c, some d'); throw (.io e)

/-- Changes the cache, leaving the device alone. -/
def modifyCache (f : Cache → Cache) : CacheM δ Unit :=
  modify fun (c, d) => (f c, d)

/--
Makes the active slot the home of block `idx`: a slot that holds it becomes active;
otherwise the older slot is written back if dirty, emptied and made active. Returns
whether the block's contents still have to be established.
-/
def makeSpaceFor (idx : UInt16) : CacheM δ Bool := do
  let (c, dev) ← get
  if dev.isNone then throw .noDevice
  if c.active.holds idx then return false
  modifyCache fun c => ⟨c.older, c.active⟩
  let (c, _) ← get
  if c.active.holds idx then return false
  writeBackActive
  modifyCache fun c => { c with active := { c.active with state := .empty } }
  return true

/-- Makes block `idx` resident, reading it if needed, and returns its buffer's address. -/
def Cache.block (idx : UInt16) : CacheM δ UInt32 := do
  if ← makeSpaceFor idx then
    let (c, dev) ← get
    match dev with
    | none => throw .noDevice
    | some d =>
      let (d', buf, failure) := BlockDevice.readBlock d idx c.active.buf
      match failure with
      | some reason =>
        set ({ c with active := { c.active with buf := buf, state := .empty } }, some d')
        throw (.io ⟨.read, idx, reason⟩)
      | none =>
        set ({ c with active := { c.active with buf := buf, idx := idx, state := .clean } },
          some d')
  let (c, _) ← get
  return c.active.addr

/-- Assigns block `idx` a buffer without reading it, and returns the buffer's address. -/
def Cache.buffer (idx : UInt16) : CacheM δ UInt32 := do
  if ← makeSpaceFor idx then
    modifyCache fun c => { c with active := { c.active with idx := idx, state := .buffer } }
  let (c, _) ← get
  return c.active.addr

/-- Marks the active block as modified. -/
def Cache.update (c : Cache) : Cache :=
  match c.active.state with
  | .buffer | .clean => { c with active := { c.active with state := .dirty } }
  | .empty | .dirty => c

/-- Writes back every dirty block, then empties both slots. -/
def Cache.flush : CacheM δ Unit := do
  writeBackActive
  modifyCache fun c => { c with active := { c.active with state := .empty } }
  writeBackOlder
  modifyCache fun c => { c with older := { c.older with state := .empty } }

/-- Forgets both resident blocks, discarding any modifications. -/
def Cache.emptyBuffers (c : Cache) : Cache :=
  ⟨{ c.active with state := .empty }, { c.older with state := .empty }⟩

theorem update_state (c : Cache) :
    (c.update.active.state = .dirty) ↔ c.active.state ≠ .empty := by
  unfold Cache.update
  cases h : c.active.state <;> simp [h]

end ForthMachine.Block
