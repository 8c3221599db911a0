/-!
# UTF-8 over raw bytes

Input lines, word names and messages are byte strings that need not be valid UTF-8.
This module reads such a string as a sequence of *pieces*: a well-formed UTF-8
sequence decodes to its scalar value, and any byte that does not start a well-formed
sequence stands alone as a *stray* byte. This is the usual replacement rule: a stray
byte reads as U+FFFD and advances by one byte, so decoding never fails and never skips
more than it must.

The main statement is `encodeScalar_length`: an encoded scalar takes one to four bytes.
-/

namespace ForthMachine.Text

/-- A byte string: the unit of everything the machine reads and writes. -/
abbrev Bytes := List UInt8

/-- The bytes of a string literal, in UTF-8. -/
def Bytes.ofString (s : String) : Bytes := s.toUTF8.toList

/-- One decoded unit of a byte string. -/
inductive Piece where
  /-- A well-formed UTF-8 sequence and the scalar value it encodes. -/
  | scalar (code : Nat)
  /-- A byte that starts no well-formed sequence. -/
  | stray (byte : UInt8)
  deriving DecidableEq, Repr, Inhabited

/-- The replacement character U+FFFD, which stands for a stray byte. -/
def replacement : Nat := 0xFFFD

/-- Scalar values: code points outside the surrogate block, up to U+10FFFF. -/
def isScalar (c : Nat) : Bool := c < 0xD800 || (0xE000 ≤ c && c ≤ 0x10FFFF)

/-- A continuation byte: `10xxxxxx`. -/
def isContinuation (b : UInt8) : Bool := 0x80 ≤ b && b ≤ 0xBF

/-- The low six bits of a continuation byte. -/
def contBits (b : UInt8) : Nat := (b &&& 0x3F).toNat

/--
The shape of a sequence that starts with `b`: its length and the range its second byte
must lie in (the ranges exclude overlong forms, surrogates and values past U+10FFFF).
-/
def leadShape (b : UInt8) : Option (Nat × UInt8 × UInt8) :=
  if b < 0xC2 then none
  else if b ≤ 0xDF then some (2, 0x80, 0xBF)
  else if b = 0xE0 then some (3, 0xA0, 0xBF)
  else if b ≤ 0xEC then some (3, 0x80, 0xBF)
  else if b = 0xED then some (3, 0x80, 0x9F)
  else if b ≤ 0xEF then some (3, 0x80, 0xBF)
  else if b = 0xF0 then some (4, 0x90, 0xBF)
  else if b ≤ 0xF3 then some (4, 0x80, 0xBF)
  else if b = 0xF4 then some (4, 0x80, 0x8F)
  else none

/-- Splits off the first piece of a non-empty byte string. -/
def splitPiece : Bytes → Option (Piece × Bytes)
  | [] => none
  | b :: bs =>
    if b < 0x80 then some (.scalar b.toNat, bs) else
    match leadShape b, bs with
    | some (2, lo, hi), c1 :: r =>
      if lo ≤ c1 && c1 ≤ hi then
        some (.scalar ((b &&& 0x1F).toNat * 64 + contBits c1), r)
      else some (.stray b, bs)
    | some (3, lo, hi), c1 :: c2 :: r =>
      if lo ≤ c1 && c1 ≤ hi && isContinuation c2 then
        some (.scalar ((b &&& 0x0F).toNat * 4096 + contBits c1 * 64 + contBits c2), r)
      else some (.stray b, bs)
    | some (4, lo, hi), c1 :: c2 :: c3 :: r =>
      if lo ≤ c1 && c1 ≤ hi && isContinuation c2 && isContinuation c3 then
        some (.scalar ((b &&& 0x07).toNat * 262144 + contBits c1 * 4096 + contBits c2 * 64
          + contBits c3), r)
      else some (.stray b, bs)
    | _, _ => some (.stray b, bs)

theorem splitPiece_length {bs rest : Bytes} {p : Piece} (h : splitPiece bs = some (p, rest)) :
    rest.length < bs.length := by
  match bs, h with
  | b :: bs, h =>
    simp only [splitPiece] at h
    split at h
    · cases h; simp
    · split at h <;> (try split at h) <;> cases h <;> simp <;> omega

/-- Reads a byte string as pieces, left to right. -/
def decode (bs : Bytes) : List Piece :=
  match h : splitPiece bs with
  | none => []
  | some (p, rest) =>
    have := splitPiece_length h
    p :: decode rest
termination_by bs.length

/-- The scalar a piece stands for: a stray byte stands for U+FFFD. -/
def Piece.code : Piece → Nat
  | .scalar c => c
  | .stray _ => replacement

/-- The UTF-8 encoding of a scalar value. -/
def encodeScalar (c : Nat) : Bytes :=
  if c < 0x80 then [c.toUInt8]
  else if c < 0x800 then [(0xC0 + c / 64).toUInt8, (0x80 + c % 64).toUInt8]
  else if c < 0x10000 then
    [(0xE0 + c / 4096).toUInt8, (0x80 + c / 64 % 64).toUInt8, (0x80 + c % 64).toUInt8]
  else
    [(0xF0 + c / 262144).toUInt8, (0x80 + c / 4096 % 64).toUInt8,
      (0x80 + c / 64 % 64).toUInt8, (0x80 + c % 64).toUInt8]

/-- The UTF-8 encoding of a code point; anything but a scalar value encodes as U+FFFD. -/
def encode (c : Nat) : Bytes := encodeScalar (if isScalar c then c else replacement)

/-- The bytes of a piece: a scalar re-encoded, a stray byte as itself. -/
def Piece.bytes : Piece → Bytes
  | .scalar c => encode c
  | .stray b => [b]

/-- Valid UTF-8: no piece is a stray byte. -/
def isValid (bs : Bytes) : Bool :=
  (decode bs).all fun
    | .scalar _ => true
    | .stray _ => false

/-- The scalar values of a byte string, a stray byte counting as U+FFFD. -/
def codes (bs : Bytes) : List Nat := (decode bs).map Piece.code

/-- The text of a byte string as a Lean string, stray bytes read as U+FFFD. -/
def toText (bs : Bytes) : String := String.ofList ((codes bs).map Char.ofNat)

/-- The first scalar value of a byte string (U+FFFD for a stray byte), or `none` if empty. -/
def firstCode (bs : Bytes) : Option Nat := (splitPiece bs).map (·.1.code)

theorem encodeScalar_length (c : Nat) :
    1 ≤ (encodeScalar c).length ∧ (encodeScalar c).length ≤ 4 := by
  unfold encodeScalar
  split <;> (try split) <;> (try split) <;> simp

end ForthMachine.Text
