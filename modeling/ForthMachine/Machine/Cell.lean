/-!
# Cells

A cell is a 32-bit word. Memory and the stacks hold cells as unsigned words; arithmetic
and comparison read them as two's complement integers, and every result wraps to 32 bits.
Division truncates toward zero, so the one quotient that does not fit,
`-2³¹ / -1`, wraps back to `-2³¹`; the remainder takes the sign of the dividend.
Shifts by 32 or more give zero.

The main statements are `ofInt_toInt` (the signed view loses nothing) and `div_min_neg_one`.
-/

namespace ForthMachine.Cell

/-- The two's complement value of a cell. -/
def toInt (v : UInt32) : Int := if v.toNat < 2147483648 then v.toNat else v.toNat - 4294967296

/-- The cell holding an integer, wrapped to 32 bits. -/
def ofInt (i : Int) : UInt32 := (i % 4294967296).toNat.toUInt32

/-- Signed comparison. -/
def lt (a b : UInt32) : Bool := toInt a < toInt b

/-- Quotient, truncated toward zero and wrapped. -/
def quot (a b : UInt32) : UInt32 := ofInt ((toInt a).tdiv (toInt b))

/-- Remainder with the sign of the dividend. -/
def rem (a b : UInt32) : UInt32 := ofInt ((toInt a).tmod (toInt b))

/-- Negation, wrapped. -/
def neg (a : UInt32) : UInt32 := 0 - a

/-- Absolute value, wrapped (the absolute value of `-2³¹` is itself). -/
def abs (a : UInt32) : UInt32 := if toInt a < 0 then neg a else a

/-- Shift left, zero for 32 or more places. -/
def shiftLeft (a n : UInt32) : UInt32 := if n < 32 then a <<< n else 0

/-- Logical shift right, zero for 32 or more places. -/
def shiftRight (a n : UInt32) : UInt32 := if n < 32 then a >>> n else 0

/-- Arithmetic shift right by one: halving, rounded toward negative infinity. -/
def halve (a : UInt32) : UInt32 := ofInt ((toInt a).fdiv 2)

/-- The truth value of a flag: all bits set for true, zero for false. -/
def flag (b : Bool) : UInt32 := if b then 0xFFFFFFFF else 0

theorem ofInt_toInt : ∀ v : UInt32, ofInt (toInt v) = v := by
  intro v
  unfold ofInt toInt
  apply UInt32.toNat_inj.mp
  have hv := v.toNat_lt
  split
  · rw [Int.emod_eq_of_lt (by omega) (by omega)]
    simp
  · rw [show ((v.toNat : Int) - 4294967296) % 4294967296 = v.toNat by omega]
    simp

theorem div_min_neg_one : quot 0x80000000 0xFFFFFFFF = 0x80000000 := by decide

end ForthMachine.Cell
