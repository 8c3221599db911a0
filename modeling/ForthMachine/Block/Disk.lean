import ForthMachine.Block.Cache
import ForthMachine.Files.Tree

/-!
# Block devices

Two devices back the machine's block storage.

* A *memory disk* keeps blocks in memory and logs every call (`read 3`, `write 3`). It can
  be told to fail all reads, all writes, or every call once its log holds more than a given
  number of entries; a failed call leaves the buffer as it was.
* A *directory disk* keeps block `n` as the file `NNNNN.bin` (five decimal digits) in a
  directory, creating the directory on the first write. A block without a file reads as
  spaces.

Both read a stored block into the buffer from its start and pad the rest with spaces.
-/

namespace ForthMachine.Block

open ForthMachine.Files

/-- A buffer holding `data` from its start, padded with spaces to `size` bytes. -/
def padded (data : ByteArray) (size : Nat) : ByteArray :=
  let n := min data.size size
  data.extract 0 n ++ spaces (size - n)

/-- A block device in memory, with a call log and failure switches. -/
structure MemoryDisk where
  stored : List (UInt16 × ByteArray)
  failRead : Bool := false
  failWrite : Bool := false
  failAfter : Int := 0
  log : Array String := #[]

namespace MemoryDisk

/-- The stored contents of block `idx`. -/
def find? (m : MemoryDisk) (idx : UInt16) : Option ByteArray :=
  (m.stored.find? (·.1 == idx)).map (·.2)

/-- Logs a call; the result says whether the failure threshold has been passed. -/
def record (m : MemoryDisk) (entry : String) : MemoryDisk × Bool :=
  let m := { m with log := m.log.push entry }
  (m, decide (0 < m.failAfter) && decide (m.failAfter < m.log.size))

/-- The reason every failed call gives. -/
def failure : String := "device on fire"

/-- Reads a block: its stored bytes padded with spaces, or all spaces. -/
def read (m : MemoryDisk) (idx : UInt16) (buf : ByteArray) :
    MemoryDisk × ByteArray × Option String :=
  let (m, tripped) := m.record ("read " ++ toString idx.toNat)
  if tripped || m.failRead then (m, buf, some failure)
  else (m, padded ((m.find? idx).getD ByteArray.empty) buf.size, none)

/-- Writes a block, replacing what was stored. -/
def write (m : MemoryDisk) (idx : UInt16) (buf : ByteArray) : MemoryDisk × Option String :=
  let (m, tripped) := m.record ("write " ++ toString idx.toNat)
  if tripped || m.failWrite then (m, some failure)
  else ({ m with stored := (m.stored.filter (·.1 != idx)) ++ [(idx, buf)] }, none)

end MemoryDisk

/-- A block device keeping one file per block in a directory of a file tree. -/
structure DirectoryDisk where
  root : String
  tree : Tree
  /-- Block files looked for and not found, newest last. -/
  misses : List String := []

namespace DirectoryDisk

/-- The file name of block `idx`: five decimal digits and `.bin`. -/
def fileName (idx : UInt16) : String :=
  let ds := toString idx.toNat
  String.ofList (List.replicate (5 - ds.length) '0') ++ ds ++ ".bin"

/-- The path of block `idx`'s file. -/
def path (d : DirectoryDisk) (idx : UInt16) : String := join d.root (fileName idx)

/-- Reads a block's file, padded with spaces; a missing file reads as spaces. -/
def read (d : DirectoryDisk) (idx : UInt16) (buf : ByteArray) :
    DirectoryDisk × ByteArray × Option String :=
  match d.tree.readFile (d.path idx) with
  | .ok data => (d, padded data buf.size, none)
  | .error e =>
    if e.errno = .notFound then ({ d with misses := d.misses ++ [d.path idx] }, spaces buf.size, none)
    else (d, buf, some e.message)

/-- Writes a block's file, making the directory first. -/
def write (d : DirectoryDisk) (idx : UInt16) (buf : ByteArray) : DirectoryDisk × Option String :=
  match d.tree.mkdirAll d.root with
  | .error e => (d, some e.message)
  | .ok t =>
    match t.writeFile (d.path idx) buf with
    | .error e => ({ d with tree := t }, some e.message)
    | .ok t => ({ d with tree := t }, none)

end DirectoryDisk

/-- The devices the machine can keep blocks on. -/
inductive Disk where
  | memory (m : MemoryDisk)
  | directory (d : DirectoryDisk)

instance : BlockDevice Disk where
  readBlock
    | .memory m, idx, buf => let (m, b, r) := m.read idx buf; (.memory m, b, r)
    | .directory d, idx, buf => let (d, b, r) := d.read idx buf; (.directory d, b, r)
  writeBlock
    | .memory m, idx, buf => let (m, r) := m.write idx buf; (.memory m, r)
    | .directory d, idx, buf => let (d, r) := d.write idx buf; (.directory d, r)

/--
A device for exercising the cache: a block never written reads as its letter
(`a` for block 0, `b` for block 1, … cycling every 26 blocks), a written block reads as
its last contents. Every call logs the transfer and the buffer in hexadecimal; once the
log holds `failAfter` entries (when positive), further calls fail without logging. A
read fills the buffer before that check.
-/
structure PatternDisk where
  stored : List (UInt16 × ByteArray) := []
  failAfter : Int := 0
  log : Array String := #[]

namespace PatternDisk

/-- Lower-case hexadecimal of a buffer. -/
def hex (b : ByteArray) : String :=
  let digit := fun (n : Nat) => if n < 10 then Char.ofNat (48 + n) else Char.ofNat (87 + n)
  String.ofList (b.toList.flatMap fun x => [digit (x.toNat / 16), digit (x.toNat % 16)])

/-- Whether the log is full. -/
def full (p : PatternDisk) : Bool := decide (0 < p.failAfter) && decide (p.failAfter ≤ p.log.size)

/-- The reason every failed call gives. -/
def failure : String := "device on fire"

/-- Reads a block. -/
def read (p : PatternDisk) (idx : UInt16) (buf : ByteArray) :
    PatternDisk × ByteArray × Option String :=
  let filled := match (p.stored.find? (·.1 == idx)).map (·.2) with
    | some data => padded data buf.size
    | none => ⟨Array.replicate buf.size (97 + idx.toNat % 26).toUInt8⟩
  if p.full then (p, filled, some failure)
  else ({ p with log := p.log.push ("read " ++ toString idx.toNat ++ " " ++ hex filled) },
    filled, none)

/-- Writes a block. -/
def write (p : PatternDisk) (idx : UInt16) (buf : ByteArray) : PatternDisk × Option String :=
  if p.full then (p, some failure)
  else ({ p with log := p.log.push ("write " ++ toString idx.toNat ++ " " ++ hex buf),
                 stored := (p.stored.filter (·.1 != idx)) ++ [(idx, buf)] }, none)

end PatternDisk

instance : BlockDevice PatternDisk where
  readBlock := PatternDisk.read
  writeBlock := PatternDisk.write

end ForthMachine.Block
