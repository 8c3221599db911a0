import ForthMachine.Text.Utf8

/-!
# Numerals

Positional numerals in the bases 2 to 36. Digits past 9 are letters; the machine writes
them in upper case and reads either case. Reading a cell accepts only digits of the base,
at least one of them, and a value below 2³²: no sign, no prefix, no separators.

Integers of 64 bits are read in decimal with an optional sign. Reading fails on the first
character that is no digit, unless the digits before it already exceed 64 bits; a value
that fits 64 unsigned bits but not the signed range fails only once all digits are read.

The main statement is `digitValue_digitChar`: a written digit reads back as itself.
-/

namespace ForthMachine.Text

/-- The upper-case digit for a value below 36. -/
def digitChar (d : Nat) : UInt8 :=
  if d < 10 then (0x30 + d).toUInt8 else (0x41 + d - 10).toUInt8

/-- The value of a digit character in either case, if it is one. -/
def digitValue (b : UInt8) : Option Nat :=
  if 0x30 ≤ b && b ≤ 0x39 then some (b.toNat - 0x30)
  else if 0x61 ≤ b && b ≤ 0x7A then some (b.toNat - 0x61 + 10)
  else if 0x41 ≤ b && b ≤ 0x5A then some (b.toNat - 0x41 + 10)
  else none

/-- The digits of `n` in base `b`, most significant first; zero is the single digit 0. -/
def natDigits (b : Nat) (n : Nat) : Bytes := go n []
where
  go (n : Nat) (acc : Bytes) : Bytes :=
    let acc := digitChar (n % b) :: acc
    if _h : n < b ∨ b < 2 then acc else go (n / b) acc
  termination_by n
  decreasing_by exact Nat.div_lt_self (by omega) (by omega)

/-- A signed numeral in base `b`: a minus sign for negative values, then the digits. -/
def intDigits (b : Nat) (v : Int) : Bytes :=
  if v < 0 then 0x2D :: natDigits b v.natAbs else natDigits b v.toNat

/-- Decimal text of a natural number. -/
def decimal (n : Nat) : Bytes := natDigits 10 n

/-- Decimal text of an integer. -/
def decimalInt (v : Int) : Bytes := intDigits 10 v

/-- Lower-case hexadecimal digits of a natural number, without prefix. -/
def hexLower (n : Nat) : Bytes :=
  (natDigits 16 n).map fun c => if 0x41 ≤ c && c ≤ 0x46 then c + 0x20 else c

/-- Two lower-case hexadecimal digits of a byte. -/
def hexByte (b : UInt8) : Bytes :=
  let d := fun (n : Nat) => if n < 10 then (0x30 + n).toUInt8 else (0x61 + n - 10).toUInt8
  [d (b.toNat / 16), d (b.toNat % 16)]

/-- A byte string in lower-case hexadecimal, two digits a byte. -/
def hexBytes (bs : Bytes) : String :=
  String.ofList ((bs.flatMap hexByte).map fun b => Char.ofNat b.toNat)

/-- Reads digits of base `b` into a value, failing on a non-digit or an empty string. -/
def readDigits (b : Nat) : Bytes → Option Nat
  | [] => none
  | d :: ds => do
    let v ← (digitValue d).filter (· < b)
    go ds v
where
  go : Bytes → Nat → Option Nat
    | [], acc => some acc
    | d :: ds, acc => do
      let v ← (digitValue d).filter (· < b)
      go ds (acc * b + v)

/-- Reads an unsigned cell in base `b`: digits only, and the value must be below 2³². -/
def readCell (b : Nat) (digits : Bytes) : Option UInt32 := do
  let v ← readDigits b digits
  if v < UInt32.size then some v.toUInt32 else none

/-- Why a decimal integer could not be read. -/
inductive NumberError where
  /-- A character that is no digit, or no digits at all. -/
  | invalid
  /-- A value outside the 64-bit range. -/
  | outOfRange
  deriving DecidableEq, Repr

/-- Reads decimal digits onto `acc`, failing as soon as the value reaches 2⁶⁴. -/
def readUnsigned64 : Bytes → Nat → Except NumberError Nat
  | [], acc => .ok acc
  | d :: ds, acc =>
    match (digitValue d).filter (· < 10) with
    | none => .error .invalid
    | some v =>
      if acc * 10 + v ≥ UInt64.size then .error .outOfRange else readUnsigned64 ds (acc * 10 + v)

/-- Reads a signed decimal integer of 64 bits: an optional `+` or `-`, then digits. -/
def readInt64 (s : Bytes) : Except NumberError Int :=
  let (neg, digits) : Bool × Bytes := match s with
    | 0x2B :: ds => (false, ds)
    | 0x2D :: ds => (true, ds)
    | ds => (false, ds)
  if digits.isEmpty then .error .invalid else do
    let n ← readUnsigned64 digits 0
    if neg then
      if n > 9223372036854775808 then .error .outOfRange else pure (-(n : Int))
    else
      if n ≥ 9223372036854775808 then .error .outOfRange else pure (n : Int)

theorem digitValue_digitChar : ∀ d, d < 36 → digitValue (digitChar d) = some d := by
  decide

end ForthMachine.Text
