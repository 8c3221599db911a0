import ForthMachine.Machine.Layout

/-!
# The host's view of a machine

What a host program does with a machine between lines: move cells on and off the data
stack, read and write program memory, list the visible words, and flush the output.
Memory goes through the same checks as a program's own accesses: only the data space,
from cell 4 up to the data limit, may be touched.

The main statement is `peekCell_neg`: a negative depth is an underflow.
-/

namespace ForthMachine

open ForthMachine.Text

/-- The cell `n` down from the top of the data stack; a negative `n` underflows. -/
def peekCell (n : Int) : Vm UInt32 := do
  if n < 0 then throw (.stack ⟨.data, .underflow⟩)
  peek .data n.toNat.toUInt32

/-- Flushes the output. -/
def flushOutput : Vm Unit := do
  match (← get).sink.flush with
  | some e => throw (.sink e)
  | none => pure ()

/-- The cells of the data stack as signed numbers, bottom first. -/
def Machine.stackValues (m : Machine) : List Int := (m.cells .data).map Cell.toInt

theorem peekCell_neg (n : Int) (h : n < 0) (m : Machine) :
    (peekCell n).run m = .error (.stack ⟨.data, .underflow⟩) m := by
  simp only [peekCell, h, ↓reduceIte]
  rfl

end ForthMachine
