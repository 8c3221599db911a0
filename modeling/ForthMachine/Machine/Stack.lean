import ForthMachine.Memory.Region

/-!
# Stacks

The machine has three bounded stacks of cells: the data stack of operands, the return
stack of call and loop frames, and the control stack of pending fixups while compiling.
Their cells live in the memory region: a stack is a base address, a capacity and a depth,
all 32-bit, and its `i`-th cell from the bottom is the region's cell at `base + 4 * i`.
So a program that writes into a stack's partition changes the stack, and a stack whose
partition wraps or runs past the region fails at the access, like any other.

Pushing onto a full stack overflows and reaching below the bottom underflows; both are
decided from the depth alone, before the region is touched.

The main statements are `slot_of_lt` (where the `n`-th cell down lives) and `lower_depth`.
-/

namespace ForthMachine

open ForthMachine.Memory

/-- The three stacks, by role. -/
inductive StackName where
  | data | ret | control
  deriving DecidableEq, Repr

/-- How a stack is named in messages. -/
def StackName.text : StackName → String
  | .data => "data"
  | .ret => "return"
  | .control => "control"

/-- The two ways a stack operation fails. -/
inductive StackFault where
  | underflow | overflow
  deriving DecidableEq, Repr

/-- A failed stack operation: which stack, and how. -/
structure StackError where
  stack : StackName
  fault : StackFault
  deriving DecidableEq, Repr

/-- The message of a stack error, like `data stack underflow`. -/
def StackError.message (e : StackError) : String :=
  e.stack.text ++ match e.fault with
    | .underflow => " stack underflow"
    | .overflow => " stack overflow"

/-- A bounded stack whose cells live in the region from `base` upward. -/
structure Stack where
  name : StackName
  base : UInt32
  cap : UInt32
  depth : UInt32

namespace Stack

/-- An empty stack over the cells from `base`. -/
def empty (name : StackName) (base cap : UInt32) : Stack := ⟨name, base, cap, 0⟩

/-- The error of this stack with a given fault. -/
def err (s : Stack) (f : StackFault) : StackError := ⟨s.name, f⟩

/-- Whether a push would overflow. -/
def full (s : Stack) : Bool := s.cap ≤ s.depth

/-- The address the next push writes. -/
def next (s : Stack) : UInt32 := s.base + s.depth * cellSize

/-- The address of the `n`-th cell down from the top; 0 is the top. -/
def slot (s : Stack) (n : UInt32) : Except StackError UInt32 :=
  if n < s.depth then .ok (s.base + (s.depth - 1 - n) * cellSize) else .error (s.err .underflow)

/-- The stack with `n` fewer cells, unless it holds fewer. -/
def lower (s : Stack) (n : UInt32) : Except StackError Stack :=
  if n ≤ s.depth then .ok { s with depth := s.depth - n } else .error (s.err .underflow)

/-- The stack with one more cell. -/
def raise (s : Stack) : Stack := { s with depth := s.depth + 1 }

/-- Empties the stack. -/
def clear (s : Stack) : Stack := { s with depth := 0 }

/-- The addresses of the cells, bottom first. -/
def addresses (s : Stack) : List UInt32 :=
  (List.range s.depth.toNat).map fun i => s.base + i.toUInt32 * cellSize

/-- The cells, bottom first, read from a region; a cell that cannot be read shows as 0. -/
def cells (s : Stack) (r : Region) : List UInt32 :=
  s.addresses.map fun a => match r.loadCell a with
    | .ok v => v
    | .error _ => 0

theorem slot_of_lt {s : Stack} {n : UInt32} (h : n < s.depth) :
    s.slot n = .ok (s.base + (s.depth - 1 - n) * cellSize) := by
  simp [slot, h]

theorem lower_depth {s t : Stack} {n : UInt32} (h : s.lower n = .ok t) :
    t.depth = s.depth - n := by
  unfold lower at h
  split at h
  · cases h; rfl
  · cases h

theorem addresses_length (s : Stack) : s.addresses.length = s.depth.toNat := by
  simp [addresses]

end Stack

end ForthMachine
