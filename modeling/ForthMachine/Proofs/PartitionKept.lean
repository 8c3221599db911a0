import ForthMachine.Proofs.Partition
import ForthMachine.Proofs.Runs

/-!
# Every operation keeps the partition

Each operation of the machine gets one Hoare triple, `⦃s.Sane L⦄ op ⦃s.Sane L⦄`, whether it
succeeds or fails, for a fixed layout `L`: callers are proved from the triples of their
callees by `mvcgen`. The region's writers carry the claim that matters as a precondition:
a cell, byte or string written by anything but a stack operation lies in the data space
(`L.InData`), and a fixup pushed on the control stack names a site there when it will be
patched. The operations that compute such addresses (`allocate`, `compileOperand`,
`popFixup`) say so in their postconditions, so that the writes they feed are seen to stay
inside the data space.

The triples are scoped to `Layout`: other proofs about the same operations state other
frames.
-/

open Std.Do

set_option mvcgen.warning false

namespace ForthMachine

open ForthMachine.Text ForthMachine.Memory ForthMachine.Block

namespace Layout

variable (L : Layout)

@[scoped spec] theorem trace_sane (mark : String) (msg : Unit → Bytes) :
    ⦃fun s => ⌜s.Sane L⌝⦄ trace mark msg ⦃post⟨fun _ s => ⌜s.Sane L⌝, fun _ s => ⌜s.Sane L⌝⟩⦄ :=
  Vm.triple_of_run fun s hs => by
    obtain ⟨t, ht⟩ := trace_run mark msg s
    rw [ht]
    exact hs

@[scoped spec] theorem emitBytes_sane (p : Bytes) :
    ⦃fun s => ⌜s.Sane L⌝⦄ emitBytes p ⦃post⟨fun _ s => ⌜s.Sane L⌝, fun _ s => ⌜s.Sane L⌝⟩⦄ := by
  mvcgen [emitBytes]

@[scoped spec] theorem loadCell_sane (a : UInt32) :
    ⦃fun s => ⌜s.Sane L⌝⦄ loadCell a ⦃post⟨fun _ s => ⌜s.Sane L⌝, fun _ s => ⌜s.Sane L⌝⟩⦄ := by
  mvcgen [loadCell, Vm.ofRegion]

@[scoped spec] theorem slice_sane (a : UInt32) (n : Nat) :
    ⦃fun s => ⌜s.Sane L⌝⦄ slice a n ⦃post⟨fun _ s => ⌜s.Sane L⌝, fun _ s => ⌜s.Sane L⌝⟩⦄ := by
  mvcgen [slice, Vm.ofRegion]

/-! ## Writes to the data space -/

/-- A cell written inside the data space keeps the partition. -/
@[scoped spec] theorem storCell_sane (a v : UInt32) :
    ⦃fun s => ⌜s.Sane L ∧ L.InData a 4⌝⦄ storCell a v
    ⦃post⟨fun _ s => ⌜s.Sane L⌝, fun _ s => ⌜s.Sane L⌝⟩⦄ :=
  Vm.triple_of_run fun s ⟨hs, ha⟩ => by
    rw [storCell_run]
    cases hr : s.region.storCell a v with
    | ok r =>
      rw [Region.storCell_eq hr]
      exact hs.writeAt ha.1 (by simpa using ha.2)
    | error e => exact hs

/-- A byte written inside the data space keeps the partition. -/
@[scoped spec] theorem storByte_sane (a : UInt32) (b : UInt8) :
    ⦃fun s => ⌜s.Sane L ∧ L.InData a 1⌝⦄ storByte a b
    ⦃post⟨fun _ s => ⌜s.Sane L⌝, fun _ s => ⌜s.Sane L⌝⟩⦄ :=
  Vm.triple_of_run fun s ⟨hs, ha⟩ => by
    rw [storByte_run]
    cases hr : s.region.storByte a b with
    | ok r =>
      rw [Region.storByte_eq hr]
      exact hs.writeAt ha.1 (by simpa using ha.2)
    | error e => exact hs

/-- Bytes copied to a place inside the data space keep the partition; so does a copy too
long for the region, which the region refuses. -/
@[scoped spec] theorem copyIn_sane (a : UInt32) (bs : Bytes) :
    ⦃fun s => ⌜s.Sane L ∧ 4 ≤ a.toNat ∧
      (a.toNat + bs.length ≤ L.dataLimit ∨ L.size < a.toNat + bs.length)⌝⦄ copyIn a bs
    ⦃post⟨fun _ s => ⌜s.Sane L⌝, fun _ s => ⌜s.Sane L⌝⟩⦄ :=
  Vm.triple_of_run fun s ⟨hs, ha, hfit⟩ => by
    rw [copyIn_run]
    cases hr : s.region.copyIn a bs with
    | ok r =>
      obtain ⟨rfl, hlen⟩ := Region.copyIn_eq hr
      have hsize : s.region.bytes.size = L.size := hs.size
      exact hs.writeAt ha (by omega)
    | error e => exact hs

/-- A change of the region that keeps the partition. -/
@[scoped spec] theorem changeRegion_sane (f : Region → Region) :
    ⦃fun s => ⌜{ s with region := f s.region }.Sane L⌝⦄ changeRegion f
    ⦃post⟨fun _ s => ⌜s.Sane L⌝, fun _ s => ⌜s.Sane L⌝⟩⦄ := by
  mvcgen [changeRegion, takeRegion]

/-! ## Stack operations -/

/-- A push onto the data or the return stack keeps the partition. -/
@[scoped spec] theorem push_sane (st : StackName) (v : UInt32) :
    ⦃fun s => ⌜s.Sane L ∧ st ≠ .control⌝⦄ push st v
    ⦃post⟨fun _ s => ⌜s.Sane L⌝, fun _ s => ⌜s.Sane L⌝⟩⦄ :=
  Vm.triple_of_run fun s ⟨hs, hst⟩ => by
    cases hr : (push st v).run s with
    | ok u t => exact hs.push hst hr
    | error e t =>
      rw [push_run] at hr
      split at hr
      · cases hr
        exact hs
      · split at hr <;> cases hr
        exact hs

@[scoped spec] theorem peek_sane (st : StackName) (n : UInt32) :
    ⦃fun s => ⌜s.Sane L⌝⦄ peek st n ⦃post⟨fun _ s => ⌜s.Sane L⌝, fun _ s => ⌜s.Sane L⌝⟩⦄ := by
  mvcgen [peek, Vm.ofStack]

@[scoped spec] theorem dropCells_sane (st : StackName) (n : UInt32) :
    ⦃fun s => ⌜s.Sane L ∧ st ≠ .control⌝⦄ dropCells st n
    ⦃post⟨fun _ s => ⌜s.Sane L⌝, fun _ s => ⌜s.Sane L⌝⟩⦄ :=
  Vm.triple_of_run fun s ⟨hs, hst⟩ => by
    cases hr : (dropCells st n).run s with
    | ok u t => exact hs.dropCells_sane hst hr
    | error e t =>
      rw [dropCells_run] at hr
      split at hr <;> cases hr
      exact hs

@[scoped spec] theorem pop_sane (st : StackName) :
    ⦃fun s => ⌜s.Sane L ∧ st ≠ .control⌝⦄ pop st
    ⦃post⟨fun _ s => ⌜s.Sane L⌝, fun _ s => ⌜s.Sane L⌝⟩⦄ := by
  mvcgen [pop]
  all_goals simp_all

@[scoped spec] theorem poke_sane (st : StackName) (n v : UInt32) :
    ⦃fun s => ⌜s.Sane L ∧ st ≠ .control⌝⦄ poke st n v
    ⦃post⟨fun _ s => ⌜s.Sane L⌝, fun _ s => ⌜s.Sane L⌝⟩⦄ :=
  Vm.triple_of_run fun s ⟨hs, hst⟩ => by
    cases hr : (poke st n v).run s with
    | ok u t => exact hs.poke_sane hst hr
    | error e t =>
      rw [poke_run] at hr
      split at hr
      · split at hr <;> cases hr
        exact hs
      · cases hr
        exact hs

@[scoped spec] theorem popN_sane (n : Nat) :
    ⦃fun s => ⌜s.Sane L⌝⦄ popN n ⦃post⟨fun _ s => ⌜s.Sane L⌝, fun _ s => ⌜s.Sane L⌝⟩⦄ := by
  mvcgen [popN] invariants
  | inv1 => post⟨fun _ s => ⌜s.Sane L⌝, fun _ s => ⌜s.Sane L⌝⟩
  all_goals simp_all

@[scoped spec] theorem pushAll_sane (vs : List UInt32) :
    ⦃fun s => ⌜s.Sane L⌝⦄ pushAll vs ⦃post⟨fun _ s => ⌜s.Sane L⌝, fun _ s => ⌜s.Sane L⌝⟩⦄ := by
  induction vs with
  | nil => mvcgen [pushAll]
  | cons v vs ih =>
    have h : pushAll (v :: vs) = (do push .data v; pushAll vs) := rfl
    rw [h]
    mvcgen [ih]

@[scoped spec] theorem radix_sane :
    ⦃fun s => ⌜s.Sane L⌝⦄ radix ⦃post⟨fun _ s => ⌜s.Sane L⌝, fun _ s => ⌜s.Sane L⌝⟩⦄ := by
  mvcgen [radix]

/-- A program access that passes its check lies in the data space. -/
@[scoped spec] theorem checkData_sane (a : UInt32) (n : Nat) (acc : Access) :
    ⦃fun s => ⌜s.Sane L⌝⦄ checkData a n acc
    ⦃post⟨fun _ s => ⌜s.Sane L ∧ L.InData a n⌝, fun _ s => ⌜s.Sane L⌝⟩⦄ := by
  mvcgen [checkData]
  rename_i s hs hc
  simp only [Bool.or_eq_true, decide_eq_true_eq, not_or, not_lt, gt_iff_lt] at hc
  have hb : 4 ≤ a.toNat := by
    have := UInt32.lt_iff_toNat_lt.not.mp hc.1
    simp only [baseAddr, UInt32.reduceToNat] at this
    omega
  have hd : s.dataLimit.toNat = L.dataLimit := hs.dataLimit
  exact ⟨hs, hb, by omega⟩

@[scoped spec] theorem loadData_sane (a : UInt32) :
    ⦃fun s => ⌜s.Sane L⌝⦄ loadData a ⦃post⟨fun _ s => ⌜s.Sane L⌝, fun _ s => ⌜s.Sane L⌝⟩⦄ := by
  mvcgen [loadData]
  all_goals simp_all

@[scoped spec] theorem storData_sane (a v : UInt32) :
    ⦃fun s => ⌜s.Sane L⌝⦄ storData a v ⦃post⟨fun _ s => ⌜s.Sane L⌝, fun _ s => ⌜s.Sane L⌝⟩⦄ := by
  mvcgen [storData]

@[scoped spec] theorem dataBytes_sane (a : UInt32) (n : Nat) :
    ⦃fun s => ⌜s.Sane L⌝⦄ dataBytes a n
    ⦃post⟨fun _ s => ⌜s.Sane L ∧ L.InData a n⌝, fun _ s => ⌜s.Sane L⌝⟩⦄ := by
  mvcgen [dataBytes]
  all_goals simp_all

@[scoped spec] theorem nextToken_sane :
    ⦃fun s => ⌜s.Sane L⌝⦄ nextToken ⦃post⟨fun _ s => ⌜s.Sane L⌝, fun _ s => ⌜s.Sane L⌝⟩⦄ := by
  mvcgen [nextToken]

@[scoped spec] theorem parseUntil_sane (d : UInt8) :
    ⦃fun s => ⌜s.Sane L⌝⦄ parseUntil d ⦃post⟨fun _ s => ⌜s.Sane L⌝, fun _ s => ⌜s.Sane L⌝⟩⦄ := by
  mvcgen [parseUntil]

@[scoped spec] theorem parseName_sane :
    ⦃fun s => ⌜s.Sane L⌝⦄ parseName ⦃post⟨fun _ s => ⌜s.Sane L⌝, fun _ s => ⌜s.Sane L⌝⟩⦄ := by
  mvcgen [parseName]

@[scoped spec] theorem skipLine_sane :
    ⦃fun s => ⌜s.Sane L⌝⦄ skipLine ⦃post⟨fun _ s => ⌜s.Sane L⌝, fun _ s => ⌜s.Sane L⌝⟩⦄ := by
  mvcgen [skipLine]

@[scoped spec] theorem wordInfo_sane (h : UInt32) :
    ⦃fun s => ⌜s.Sane L⌝⦄ wordInfo h ⦃post⟨fun _ s => ⌜s.Sane L⌝, fun _ s => ⌜s.Sane L⌝⟩⦄ := by
  mvcgen [wordInfo, Vm.ofRegion]

/-! ## The dictionary -/

/-- Allocation on a machine whose dictionary ends inside its region: it fails past the
dictionary's limit, and otherwise zeroes whole cells at `here` and moves `here` past them. -/
theorem allocate_run_of_le {m : Machine} (h : m.dictLimit.toNat ≤ m.region.bytes.size)
    (n : UInt32) :
    (allocate n).run m = if m.dictLimit.toNat < m.here.toNat + (alignUp n).toNat then
        .error (.outOfMemory (alignUp n) (m.dictLimit - m.here)) m
      else .ok m.here
        ({ m with region := m.region.fillAt m.here.toNat 0 (alignUp n).toNat,
                  here := m.here + alignUp n }) := by
  simp only [allocate, EStateM.run_bind, EStateM.run_get]
  by_cases hc : m.dictLimit.toNat < m.here.toNat + (alignUp n).toNat
  · rw [if_pos (by omega), if_pos hc]
    rfl
  · rw [if_neg (by omega), if_neg hc]
    have hchk : m.region.check m.here (alignUp n).toNat .slice = .ok () := by
      simp only [Region.check]
      rw [if_neg (by omega)]
    simp only [hchk, Vm.ofRegion, changeRegion, takeRegion, EStateM.run_bind, EStateM.run_pure,
      EStateM.run_modifyGet, EStateM.run_modify]

/-- Allocation on a machine in its partition, whose dictionary ends inside the region. -/
theorem allocate_run {m : Machine} (h : m.Sane L) (n : UInt32) :
    (allocate n).run m = if L.dictLimit < m.here.toNat + (alignUp n).toNat then
        .error (.outOfMemory (alignUp n) (m.dictLimit - m.here)) m
      else .ok m.here
        ({ m with region := m.region.fillAt m.here.toNat 0 (alignUp n).toNat,
                  here := m.here + alignUp n }) := by
  have hd : m.dictLimit.toNat = L.dictLimit := h.dictLimit
  have hs : m.region.bytes.size = L.size := h.size
  have := L.dictLimit_le
  have := L.fills
  rw [allocate_run_of_le (by omega), hd]

/-- Allocation reserves whole cells between `here` and the dictionary's limit. -/
@[scoped spec] theorem allocate_sane (n : UInt32) :
    ⦃fun s => ⌜s.Sane L⌝⦄ allocate n
    ⦃post⟨fun a s => ⌜s.Sane L ∧ 8 ≤ a.toNat ∧ a.toNat + (alignUp n).toNat ≤ L.dictLimit⌝,
      fun _ s => ⌜s.Sane L⌝⟩⦄ :=
  Vm.triple_of_run fun s hs => by
    rw [allocate_run L hs]
    by_cases hc : L.dictLimit < s.here.toNat + (alignUp n).toNat
    · rw [if_pos hc]
      exact hs
    · rw [if_neg hc]
      exact ⟨hs.allocated (Memory.alignUp_toNat_mod n) (by omega), hs.here_ge, by omega⟩

end Layout

end ForthMachine
