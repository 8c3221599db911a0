import ForthMachine.Text.Numeral

/-!
# The memory region

All the state a program can observe lives in one byte region. Offsets into it are
32-bit, every access is bounds checked, and cells are four bytes, little-endian, at
offsets that are multiples of four. The region's length is a whole number of cells.

Reads past the end of the byte array give zero and writes past it are dropped; the
checks make sure that no access the machine performs goes there.
-/

namespace ForthMachine.Memory

open ForthMachine.Text

/-- The kind of access that an address was refused for. -/
inductive Access where
  | load | stor | slice | fetch | allot
  deriving DecidableEq, Repr

/-- How an access is written in messages. -/
def Access.text : Access → String
  | .load => "load"
  | .stor => "stor"
  | .slice => "slice"
  | .fetch => "fetch"
  | .allot => "allot"

/-- Why an address was refused. -/
inductive Refusal where
  /-- The bytes run past the end of the region. -/
  | outOfRange
  /-- A cell access at an offset that is no multiple of four. -/
  | misaligned
  /-- A program access outside the data space. -/
  | outsideData
  /-- Threaded code fetched from outside the allocated dictionary. -/
  | outsideDictionary
  /-- `allot` giving back more than the newest word's data space. -/
  | belowLatest
  deriving DecidableEq, Repr

/-- How a refusal is written in messages. -/
def Refusal.text : Refusal → String
  | .outOfRange => "out of range"
  | .misaligned => "misaligned"
  | .outsideData => "outside data space"
  | .outsideDictionary => "outside dictionary"
  | .belowLatest => "below latest header"

/-- An address that an access was refused for. -/
structure AddrError where
  addr : UInt32
  access : Access
  refusal : Refusal
  deriving DecidableEq, Repr

/-- The message of an address error: the reason, the access, and the address. -/
def AddrError.message (e : AddrError) : Bytes :=
  Bytes.ofString (e.refusal.text ++ " " ++ e.access.text ++ " @") ++ decimal e.addr.toNat

/-- The width of a cell in bytes. -/
def cellSize : UInt32 := 4

/-- Rounds `n` up to a multiple of the cell size, in 32-bit arithmetic. -/
def alignUp (n : UInt32) : UInt32 := (n + 3) / 4 * 4

/-- A byte region; its length is a multiple of the cell size. -/
structure Region where
  bytes : ByteArray

/-- A zeroed region of `n` bytes, cut down to a whole number of cells. -/
def Region.zeroed (n : Nat) : Region := ⟨⟨Array.replicate (n / 4 * 4) 0⟩⟩

/-- The length of the region in bytes. -/
def Region.len (r : Region) : UInt32 := r.bytes.size.toUInt32

/-- The byte at offset `i`, or 0 past the end. -/
def Region.byteAt (r : Region) (i : Nat) : UInt8 := r.bytes[i]?.getD 0

/-- Checks that `width` bytes at `addr` lie inside the region. -/
def Region.check (r : Region) (addr : UInt32) (width : Nat) (access : Access) :
    Except AddrError Unit :=
  if addr.toNat + width > r.bytes.size then .error ⟨addr, access, .outOfRange⟩ else .ok ()

/-- Checks a cell access: aligned, and inside the region. -/
def Region.checkCell (r : Region) (addr : UInt32) (access : Access) : Except AddrError Unit :=
  if addr % 4 ≠ 0 then .error ⟨addr, access, .misaligned⟩ else r.check addr 4 access

/-- The little-endian value of four bytes. -/
def cellOfBytes (b0 b1 b2 b3 : UInt8) : UInt32 :=
  b0.toUInt32 ||| (b1.toUInt32 <<< 8) ||| (b2.toUInt32 <<< 16) ||| (b3.toUInt32 <<< 24)

/-- The four little-endian bytes of a cell. -/
def bytesOfCell (v : UInt32) : List UInt8 :=
  [v.toUInt8, (v >>> 8).toUInt8, (v >>> 16).toUInt8, (v >>> 24).toUInt8]

/-- Reads the cell at `addr`. -/
def Region.loadCell (r : Region) (addr : UInt32) : Except AddrError UInt32 := do
  r.checkCell addr .load
  let i := addr.toNat
  return cellOfBytes (r.byteAt i) (r.byteAt (i + 1)) (r.byteAt (i + 2)) (r.byteAt (i + 3))

/-- Writes bytes starting at offset `i`, dropping any that fall past the end. -/
def Region.writeAt (r : Region) (i : Nat) : List UInt8 → Region
  | [] => r
  | b :: bs => (⟨r.bytes.set! i b⟩ : Region).writeAt (i + 1) bs

/-- Writes the cell at `addr`. -/
def Region.storCell (r : Region) (addr : UInt32) (v : UInt32) : Except AddrError Region := do
  r.checkCell addr .stor
  return r.writeAt addr.toNat (bytesOfCell v)

/-- Reads the byte at `addr`. -/
def Region.loadByte (r : Region) (addr : UInt32) : Except AddrError UInt8 := do
  r.check addr 1 .load
  return r.byteAt addr.toNat

/-- Writes the byte at `addr`. -/
def Region.storByte (r : Region) (addr : UInt32) (b : UInt8) : Except AddrError Region := do
  r.check addr 1 .stor
  return r.writeAt addr.toNat [b]

/-- The `n` bytes at `addr`. -/
def Region.slice (r : Region) (addr : UInt32) (n : Nat) : Except AddrError (List UInt8) := do
  r.check addr n .slice
  return (r.bytes.extract addr.toNat (addr.toNat + n)).toList

/-- Copies bytes into the region at `addr`, checked like a slice of their length. -/
def Region.copyIn (r : Region) (addr : UInt32) (bs : List UInt8) : Except AddrError Region := do
  r.check addr bs.length .slice
  return r.writeAt addr.toNat bs

/-- Sets `count` bytes from offset `i` on to `b`. -/
def Region.fillAt (r : Region) (i : Nat) (b : UInt8) : Nat → Region
  | 0 => r
  | count + 1 => (⟨r.bytes.set! i b⟩ : Region).fillAt (i + 1) b count

/-- Sets the `n` bytes at `addr` to `b`. -/
def Region.fill (r : Region) (addr : UInt32) (n : Nat) (b : UInt8) : Except AddrError Region := do
  r.check addr n .slice
  return r.fillAt addr.toNat b n

end ForthMachine.Memory
