/-!
# Threaded code

Compiled code is a sequence of cells. Each token cell holds a kind in its low byte and a
kind specific argument in the upper 24 bits; some kinds are followed by an operand cell.

The main statement is `ofCode_code`: a kind reads back from its number.
-/

namespace ForthMachine

/-- What a token cell tells the inner interpreter to do. -/
inductive TokenKind where
  /-- Return from the current word. -/
  | exit
  /-- Run the primitive whose number is the argument. -/
  | prim
  /-- Call the word whose body starts at the argument. -/
  | call
  /-- Push the operand. -/
  | lit
  /-- Jump to the operand. -/
  | branch
  /-- Pop a flag; jump to the operand when it is zero. -/
  | branch0
  /-- Pop start and limit and enter a counted loop that leaves to the operand. -/
  | enterLoop
  /-- Step the loop index by one, jumping back to the operand while the loop goes on. -/
  | stepLoop
  /-- Pop a step for the loop index, jumping back to the operand while the loop goes on. -/
  | stepLoopBy
  deriving DecidableEq, Repr, Inhabited

namespace TokenKind

/-- The number of a kind, kept in a token's low byte. -/
def code : TokenKind → UInt32
  | .exit => 0 | .prim => 1 | .call => 2 | .lit => 3 | .branch => 4 | .branch0 => 5
  | .enterLoop => 6 | .stepLoop => 7 | .stepLoopBy => 8

/-- The kind with a given number. -/
def ofCode? (c : UInt32) : Option TokenKind :=
  match c with
  | 0 => some .exit | 1 => some .prim | 2 => some .call | 3 => some .lit
  | 4 => some .branch | 5 => some .branch0 | 6 => some .enterLoop | 7 => some .stepLoop
  | 8 => some .stepLoopBy | _ => none

/-- How a kind is shown in listings. -/
def name : TokenKind → String
  | .exit => "exit" | .prim => "prim" | .call => "call" | .lit => "lit"
  | .branch => "branch" | .branch0 => "0branch" | .enterLoop => "(do)"
  | .stepLoop => "(loop)" | .stepLoopBy => "(+loop)"

/-- Kinds followed by an operand cell. -/
def hasOperand : TokenKind → Bool
  | .lit | .branch | .branch0 | .enterLoop | .stepLoop | .stepLoopBy => true
  | .exit | .prim | .call => false

end TokenKind

namespace Token

/-- The token cell of a kind and an argument (the argument's low 24 bits). -/
def make (k : TokenKind) (arg : UInt32) : UInt32 := k.code ||| (arg <<< 8)

/-- The kind number in a token cell. -/
def kindCode (t : UInt32) : UInt32 := t &&& 0xFF

/-- The kind of a token cell, if its number names one. -/
def kind? (t : UInt32) : Option TokenKind := TokenKind.ofCode? (kindCode t)

/-- The argument of a token cell. -/
def arg (t : UInt32) : UInt32 := t >>> 8

/-- The largest argument a token can carry. -/
def maxArg : UInt32 := 0xFFFFFF

theorem ofCode_code (k : TokenKind) : TokenKind.ofCode? k.code = some k := by
  cases k <;> rfl

end Token

end ForthMachine
