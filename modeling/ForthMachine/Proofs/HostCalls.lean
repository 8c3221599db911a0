import ForthMachine.Proofs.StackWords
import ForthMachine.Machine.Host

/-!
# The host's calls on a laid-out machine

Between lines a host moves cells on and off the data stack and reads and writes program
memory. On a machine that lies where a layout puts it, each of these calls does what its name
says, or fails and leaves the machine as it was:

* `push` overflows exactly when the data stack is full, and `pop` underflows exactly when it
  is empty;
* `peekCell n` reads the cell `n` down from the top. A negative `n` underflows; any other is
  first taken modulo `2 ^ 32`, the width of the stack's own index, so `2 ^ 32` reads the top
  cell again (`peekCell_run`);
* `loadData` and `storData` accept exactly the data cells, from cell 4 up to the data limit at
  cell boundaries (`Machine.DataCell`), and a store changes the reading of its own cell and of
  no other (`storData_loads`).

Main statement: `host_calls_contract`.
-/

namespace ForthMachine

open ForthMachine.Memory

/-- What an operation answers on a machine, leaving aside the state it ends in. -/
def Vm.answer {α : Type} (x : Vm α) (m : Machine) : Except MachineError α :=
  match x.run m with
  | .ok a _ => .ok a
  | .error e _ => .error e

/-- The cells that programs and the host may read and write: from cell 4 up to the data
limit, at cell boundaries. -/
def Machine.DataCell (m : Machine) (a : UInt32) : Prop :=
  4 ≤ a.toNat ∧ a.toNat % 4 = 0 ∧ a.toNat + 4 ≤ m.dataLimit.toNat

/-! ## Reading and writing data cells -/

/-- A cell read on a program's behalf: refused outside the data space, then the region's own
cell read. The machine is left as it was. -/
theorem loadData_run (m : Machine) (a : UInt32) :
    (loadData a).run m =
      if a < baseAddr ∨ m.dataLimit.toNat < a.toNat + 4 then
        .error (.address ⟨a, .load, .outsideData⟩) m
      else match m.region.loadCell a with
        | .ok v => .ok v m
        | .error e => .error (.address e) m := by
  simp only [loadData, checkData, loadCell, Vm.ofRegion, EStateM.run_bind, EStateM.run_get]
  by_cases h : a < baseAddr ∨ m.dataLimit.toNat < a.toNat + 4
  · simp [h]
  · have h' : ¬ (a < baseAddr ∨ a.toNat + 4 > m.dataLimit.toNat) := h
    simp only [h', if_false, Bool.or_eq_true, decide_eq_true_eq, EStateM.run_pure]
    cases m.region.loadCell a <;> rfl

/-- A cell write on a program's behalf: refused outside the data space, then the region's own
checked cell write. -/
theorem storData_run (m : Machine) (a v : UInt32) :
    (storData a v).run m =
      if a < baseAddr ∨ m.dataLimit.toNat < a.toNat + 4 then
        .error (.address ⟨a, .stor, .outsideData⟩) m
      else match m.region.storCell a v with
        | .ok r => .ok () { m with region := r }
        | .error e => .error (.address e) m := by
  simp only [storData, checkData, EStateM.run_bind, EStateM.run_get]
  by_cases h : a < baseAddr ∨ m.dataLimit.toNat < a.toNat + 4
  · simp [h]
  · have h' : ¬ (a < baseAddr ∨ a.toNat + 4 > m.dataLimit.toNat) := h
    simp only [h', if_false, Bool.or_eq_true, decide_eq_true_eq]
    exact storCell_run m a v

/-- A cell written at a cell boundary leaves every other cell's reading as it was: an aligned
cell elsewhere lies apart from it, and a misaligned one is refused either way. -/
theorem Memory.Region.loadCell_writeAt_other (r : Region) {a b : UInt32} (v : UInt32)
    (ha : a % 4 = 0) (hb : b ≠ a) :
    (r.writeAt a.toNat (bytesOfCell v)).loadCell b = r.loadCell b := by
  by_cases hb4 : b % 4 = 0
  · apply Region.loadCell_writeAt_of_disjoint
    have ha' : a.toNat % 4 = 0 := by simpa [UInt32.toNat_mod] using congrArg UInt32.toNat ha
    have hb' : b.toNat % 4 = 0 := by simpa [UInt32.toNat_mod] using congrArg UInt32.toNat hb4
    have hne : b.toNat ≠ a.toNat := fun e => hb (UInt32.toNat_inj.mp e)
    simp only [Region.length_bytesOfCell]
    omega
  · simp [Region.loadCell, Region.checkCell, hb4]

/-- Any other address is refused, on every machine, and the machine is left as it was. -/
theorem loadData_of_not_dataCell (m : Machine) {a : UInt32} (ha : ¬ m.DataCell a) :
    ∃ r, (loadData a).run m = .error (.address ⟨a, .load, r⟩) m := by
  rw [loadData_run]
  by_cases hout : a < baseAddr ∨ m.dataLimit.toNat < a.toNat + 4
  · exact ⟨_, if_pos hout⟩
  · -- inside the data space, so only the alignment can fail
    have hin : 4 ≤ a.toNat ∧ a.toNat + 4 ≤ m.dataLimit.toNat := by
      simp only [baseAddr, UInt32.lt_iff_toNat_lt, UInt32.reduceToNat, not_or, not_lt] at hout
      omega
    have hmis : ¬ a % 4 = 0 := fun h4 =>
      ha ⟨hin.1, by simpa [UInt32.toNat_mod] using congrArg UInt32.toNat h4, hin.2⟩
    exact ⟨.misaligned, by simp [if_neg hout, Region.loadCell, Region.checkCell, hmis]⟩

/-- A store anywhere else is refused, on every machine, and the machine is left as it was. -/
theorem storData_of_not_dataCell (m : Machine) {a : UInt32} (ha : ¬ m.DataCell a) (v : UInt32) :
    ∃ r, (storData a v).run m = .error (.address ⟨a, .stor, r⟩) m := by
  rw [storData_run]
  by_cases hout : a < baseAddr ∨ m.dataLimit.toNat < a.toNat + 4
  · exact ⟨_, if_pos hout⟩
  · have hin : 4 ≤ a.toNat ∧ a.toNat + 4 ≤ m.dataLimit.toNat := by
      simp only [baseAddr, UInt32.lt_iff_toNat_lt, UInt32.reduceToNat, not_or, not_lt] at hout
      omega
    have hmis : ¬ a % 4 = 0 := fun h4 =>
      ha ⟨hin.1, by simpa [UInt32.toNat_mod] using congrArg UInt32.toNat h4, hin.2⟩
    exact ⟨.misaligned, by simp [if_neg hout, Region.storCell, Region.checkCell, hmis]⟩

namespace Machine.Sane

variable {m : Machine} {L : Layout}

/-- The data space ends inside the region. -/
theorem dataLimit_le_size (h : m.Sane L) : m.dataLimit.toNat ≤ m.region.bytes.size := by
  have hd : m.dataLimit.toNat = L.dataLimit := h.dataLimit
  have hs : m.region.bytes.size = L.size := h.size
  have := L.fills
  omega

/-- A data cell reads as the region's cell there. -/
theorem loadData_of_dataCell (h : m.Sane L) {a : UInt32} (ha : m.DataCell a) :
    (loadData a).run m = .ok (Stack.readAt m.region a) m := by
  obtain ⟨h₁, h₂, h₃⟩ := ha
  have hr : m.region.loadCell a = _ :=
    Region.loadCell_ok h₂ (by have := h.dataLimit_le_size; omega)
  have hin : ¬ (a < baseAddr ∨ m.dataLimit.toNat < a.toNat + 4) := by
    simp only [baseAddr, UInt32.lt_iff_toNat_lt, UInt32.reduceToNat, not_or, not_lt]
    omega
  rw [loadData_run, if_neg hin, hr, Stack.readAt_of_ok hr]

/-- A store to a data cell writes the cell's four bytes. -/
theorem storData_of_dataCell (h : m.Sane L) {a : UInt32} (ha : m.DataCell a) (v : UInt32) :
    (storData a v).run m = .ok () { m with region := m.region.writeAt a.toNat (bytesOfCell v) } := by
  obtain ⟨h₁, h₂, h₃⟩ := ha
  have hin : ¬ (a < baseAddr ∨ m.dataLimit.toNat < a.toNat + 4) := by
    simp only [baseAddr, UInt32.lt_iff_toNat_lt, UInt32.reduceToNat, not_or, not_lt]
    omega
  rw [storData_run, if_neg hin,
    Region.storCell_ok h₂ (by have := h.dataLimit_le_size; omega)]

end Machine.Sane

namespace Machine.DataHolds

variable {m : Machine} {L : Layout} {xs : List UInt32}

/-- A store to a data cell keeps the stacks, reads back as stored, and leaves every other
address reading as it did. -/
theorem storData_loads (h : m.DataHolds L xs) {a : UInt32} (ha : m.DataCell a) (v : UInt32) :
    { m with region := m.region.writeAt a.toNat (bytesOfCell v) }.DataHolds L xs ∧
      (loadData a).answer { m with region := m.region.writeAt a.toNat (bytesOfCell v) } = .ok v ∧
      ∀ b, b ≠ a →
        (loadData b).answer { m with region := m.region.writeAt a.toNat (bytesOfCell v) } =
          (loadData b).answer m := by
  obtain ⟨h₁, h₂, h₃⟩ := ha
  have hd : m.dataLimit.toNat = L.dataLimit := h.sane.dataLimit
  have ha4 : a % 4 = 0 := Region.toNat_mod_four h₂
  have hsz : a.toNat + 4 ≤ m.region.bytes.size := by
    have := h.sane.dataLimit_le_size
    omega
  refine ⟨⟨h.sane.writeAt h₁ (by simp only [Region.length_bytesOfCell]; omega), h.named, ?_⟩, ?_, ?_⟩
  · -- the data stack lies above the data limit, where nothing was written
    rw [Machine.cells_def, ← h.cells]
    exact h.sane.cells_of_dataWrite (Region.size_writeAt _ _ _)
      (fun j hj => Region.byteAt_writeAt_of_not_mem _ _ _ _ (by simp only [Region.length_bytesOfCell]; omega))
      .data
  · have hin : ¬ (a < baseAddr ∨ m.dataLimit.toNat < a.toNat + 4) := by
      simp only [baseAddr, UInt32.lt_iff_toNat_lt, UInt32.reduceToNat, not_or, not_lt]
      omega
    simp only [Vm.answer, loadData_run]
    rw [if_neg hin, Region.loadCell_writeAt_self _ _ _ ha4 hsz]
  · intro b hb
    simp only [Vm.answer, loadData_run, Region.loadCell_writeAt_other _ v ha4 hb]
    by_cases hout : b < baseAddr ∨ m.dataLimit.toNat < b.toNat + 4
    · simp only [hout, if_true]
    · simp only [hout, if_false]
      cases m.region.loadCell b <;> rfl

/-- The cell `n` down from the top: a negative `n` underflows, any other is read modulo
`2 ^ 32` and must then lie within the stack. -/
theorem peekCell_run (h : m.DataHolds L xs) (n : Int) :
    (peekCell n).run m =
      if 0 ≤ n ∧ n.toNat % 2 ^ 32 < xs.length then
        .ok (xs.getD (xs.length - 1 - n.toNat % 2 ^ 32) 0) m
      else .error (.stack ⟨.data, .underflow⟩) m := by
  by_cases hn : n < 0
  · rw [peekCell_neg n hn, if_neg (by omega)]
  · have hw : n.toNat.toUInt32.toNat = n.toNat % 2 ^ 32 := UInt32.toNat_ofNat'
    simp only [peekCell, hn, if_false]
    by_cases hlt : n.toNat % 2 ^ 32 < xs.length
    · rw [if_pos ⟨by omega, hlt⟩, ← hw]
      exact h.peek_ok (by rw [hw]; exact hlt)
    · rw [if_neg (by omega)]
      exact h.peek_underflow (by rw [hw]; omega)

end Machine.DataHolds

/-- What the host's calls do on a machine whose data stack holds `xs`: the contract of
`push`, `pop`, `peekCell`, `loadData` and `storData`. -/
structure HostContract (m : Machine) (L : Layout) (xs : List UInt32) : Prop where
  peek_ok : ∀ n : Int, 0 ≤ n → n.toNat % 2 ^ 32 < xs.length →
    (peekCell n).run m = .ok (xs.getD (xs.length - 1 - n.toNat % 2 ^ 32) 0) m
  peek_underflow : ∀ n : Int, n < 0 ∨ xs.length ≤ n.toNat % 2 ^ 32 →
    (peekCell n).run m = .error (.stack ⟨.data, .underflow⟩) m
  push_ok : xs.length < L.dataCap → ∀ v,
    ∃ m', (push .data v).run m = .ok () m' ∧ m'.DataHolds L (xs ++ [v])
  push_overflow : xs.length = L.dataCap → ∀ v,
    (push .data v).run m = .error (.stack ⟨.data, .overflow⟩) m
  pop_ok : ∀ ys v, xs = ys ++ [v] → ∃ m', (pop .data).run m = .ok v m' ∧ m'.DataHolds L ys
  pop_underflow : xs = [] → (pop .data).run m = .error (.stack ⟨.data, .underflow⟩) m
  load_ok : ∀ a, m.DataCell a → (loadData a).run m = .ok (Stack.readAt m.region a) m
  load_refused : ∀ a, ¬ m.DataCell a →
    ∃ r, (loadData a).run m = .error (.address ⟨a, .load, r⟩) m
  store_ok : ∀ a v, m.DataCell a → ∃ m', (storData a v).run m = .ok () m' ∧
    m'.DataHolds L xs ∧ (loadData a).answer m' = .ok v ∧
    ∀ b, b ≠ a → (loadData b).answer m' = (loadData b).answer m
  store_refused : ∀ a v, ¬ m.DataCell a →
    ∃ r, (storData a v).run m = .error (.address ⟨a, .stor, r⟩) m

/-- The host's calls on a laid-out machine: `push` fails exactly when the data stack is full
and `pop` exactly when it is empty; `peekCell n` succeeds exactly when `n` is not negative and
`n` modulo `2 ^ 32` is below the depth; `loadData` and `storData` succeed exactly on the data
cells, and a store changes the reading of its own cell only. Every refused call leaves the
machine as it was. -/
theorem host_calls_contract {m : Machine} {L : Layout} {xs : List UInt32}
    (h : m.DataHolds L xs) : HostContract m L xs where
  peek_ok n hn hlt := by rw [h.peekCell_run, if_pos ⟨hn, hlt⟩]
  peek_underflow n hn := by rw [h.peekCell_run, if_neg (by omega)]
  push_ok hlt v := h.push_ok hlt v
  push_overflow hfull v := h.push_overflow hfull.ge v
  pop_ok ys v hxs := by subst hxs; exact h.pop_ok
  pop_underflow hxs := (hxs ▸ h).pop_underflow
  load_ok _ ha := h.sane.loadData_of_dataCell ha
  load_refused _ ha := loadData_of_not_dataCell m ha
  store_ok a v ha := ⟨_, h.sane.storData_of_dataCell ha v, h.storData_loads ha v⟩
  store_refused _ v ha := storData_of_not_dataCell m ha v

/-- The contract on a small machine whose data stack holds `7` under `0`. -/
theorem host_calls_on_pair :
    (Machine.withPair 7 0).DataHolds Layout.small [7, 0] ∧
      HostContract (Machine.withPair 7 0) Layout.small [7, 0] :=
  ⟨Machine.withPair_dataHolds 7 0, host_calls_contract (Machine.withPair_dataHolds 7 0)⟩

/-- An index of `2 ^ 32 + 1` reads the cell one down from the top. -/
example : (peekCell (2 ^ 32 + 1)).answer (Machine.withPair 7 0) = .ok 7 := by rfl

end ForthMachine
