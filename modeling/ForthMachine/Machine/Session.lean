import ForthMachine.Machine.Host

/-!
# A host's session with a machine

A host creates a machine and then calls on it: it hands it lines, resets it, moves cells on
and off the data stack, reads and writes program memory, and flushes the output. Each call
answers something and leaves the machine in a new state, also when it fails; a session is a
list of calls made one after another on the machine that creation left.
-/

namespace ForthMachine

open ForthMachine.Text

/-- The state a run ended in, whether it succeeded or failed. -/
def Vm.ended {α : Type} : EStateM.Result MachineError Machine α → Machine
  | .ok _ s => s
  | .error _ s => s

@[simp] theorem Vm.ended_ok {α : Type} (a : α) (s : Machine) : Vm.ended (.ok a s) = s := rfl

@[simp] theorem Vm.ended_error {α : Type} (e : MachineError) (s : Machine) :
    Vm.ended (.error e s : EStateM.Result MachineError Machine α) = s := rfl

/-- A call a host makes on a machine. -/
inductive HostCall where
  | line (bs : Bytes)
  | reset
  | push (v : UInt32)
  | pop
  | peek (n : Int)
  | load (a : UInt32)
  | store (a v : UInt32)
  | flush

/-- The state a call leaves, whatever it answers. -/
def Machine.perform (m : Machine) : HostCall → Machine
  | .line bs => (m.processLine bs).1
  | .reset => Vm.ended (reset.run m)
  | .push v => Vm.ended ((push .data v).run m)
  | .pop => Vm.ended ((pop .data).run m)
  | .peek n => Vm.ended ((peekCell n).run m)
  | .load a => Vm.ended ((loadData a).run m)
  | .store a v => Vm.ended ((storData a v).run m)
  | .flush => Vm.ended (flushOutput.run m)

/-- The state a session of calls leaves, the calls made in order. -/
def Machine.performAll (m : Machine) (calls : List HostCall) : Machine :=
  calls.foldl Machine.perform m

@[simp] theorem Machine.performAll_nil (m : Machine) : m.performAll [] = m := rfl

@[simp] theorem Machine.performAll_cons (m : Machine) (c : HostCall) (calls : List HostCall) :
    m.performAll (c :: calls) = (m.perform c).performAll calls := rfl

end ForthMachine
