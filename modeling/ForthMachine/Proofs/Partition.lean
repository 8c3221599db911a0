import ForthMachine.Proofs.RegionFrame

/-!
# The partition of the region

A laid-out machine divides its region in two: the data space from cell 4 up to the data
limit, which holds the number base, the dictionary and the block buffers, and above it the
partitions of the return, control and data stacks, each a whole number of cells, up to the
end of the region. `Layout` records that division; `Machine.Sane` says that a machine's
cursors, stacks, open definition, pending fixups and block buffers lie where the layout puts
them.

Because the partitions do not overlap, the stacks are independent: a push, pop, drop or poke
acts on the cells of its own stack as the list operation does and leaves the other stacks as
they were, and a write that stays inside the data space leaves every stack as it was. These
are the laws `cells_push`, `cells_pop`, `cells_dropCells`, `cells_poke` and
`Sane.withRegion`.
-/

namespace ForthMachine

open ForthMachine.Memory ForthMachine.Block

/-! ## Layouts -/

/-- How a region is divided: the data space below `dataLimit`, whose dictionary ends at
`dictLimit`, and then the return, control and data stacks' partitions of `4 * cap` bytes
each, which fill the region up to its end. -/
structure Layout where
  size : Nat
  dictLimit : Nat
  dataLimit : Nat
  retCap : Nat
  controlCap : Nat
  dataCap : Nat
  size_le : size ≤ maxRegion
  dictLimit_ge : 8 ≤ dictLimit
  dictLimit_le : dictLimit ≤ dataLimit
  dataLimit_aligned : dataLimit % 4 = 0
  controlCap_even : controlCap % 2 = 0
  fills : dataLimit + 4 * retCap + 4 * controlCap + 4 * dataCap = size

namespace Layout

variable (L : Layout)

/-- Where a stack's partition starts. -/
def base : StackName → Nat
  | .ret => L.dataLimit
  | .control => L.dataLimit + 4 * L.retCap
  | .data => L.dataLimit + 4 * L.retCap + 4 * L.controlCap

/-- How many cells a stack's partition holds. -/
def cap : StackName → Nat
  | .ret => L.retCap
  | .control => L.controlCap
  | .data => L.dataCap

theorem dataLimit_le_base (st : StackName) : L.dataLimit ≤ L.base st := by
  cases st <;> simp only [base] <;> omega

theorem base_add_cap_le (st : StackName) : L.base st + 4 * L.cap st ≤ L.size := by
  have := L.fills
  cases st <;> simp [base, cap] <;> omega

theorem base_aligned (st : StackName) : L.base st % 4 = 0 := by
  have := L.dataLimit_aligned
  cases st <;> simp only [base] <;> omega

/-- The partitions of two different stacks do not overlap. -/
theorem disjoint {st st' : StackName} (h : st ≠ st') :
    L.base st + 4 * L.cap st ≤ L.base st' ∨ L.base st' + 4 * L.cap st' ≤ L.base st := by
  cases st <;> cases st' <;> simp_all [base, cap]

end Layout

/-! ## Stack cells in the region -/

namespace Stack

/-- The cell a stack reads at an address: 0 where the region refuses it. -/
def readAt (r : Region) (a : UInt32) : UInt32 :=
  match r.loadCell a with
  | .ok v => v
  | .error _ => 0

/-- A stack whose partition lies inside a region of at most 16 MiB, at a cell boundary. -/
structure Fits (s : Stack) (r : Region) : Prop where
  depth_le : s.depth ≤ s.cap
  ends : s.base.toNat + 4 * s.cap.toNat ≤ r.bytes.size
  size_le : r.bytes.size ≤ maxRegion
  aligned : s.base.toNat % 4 = 0

variable {s : Stack} {r : Region}

theorem cells_def (s : Stack) (r : Region) :
    s.cells r = (List.range s.depth.toNat).map fun i => readAt r (s.base + i.toUInt32 * cellSize) :=
  by simp only [cells, addresses, List.map_map]; rfl

theorem cells_length (s : Stack) (r : Region) : (s.cells r).length = s.depth.toNat := by
  simp [cells_def]

/-- The `i`-th cell of a stack lives `4 * i` bytes above its base. -/
theorem Fits.address_toNat (h : s.Fits r) {i : Nat} (hi : i ≤ s.cap.toNat) :
    (s.base + i.toUInt32 * cellSize).toNat = s.base.toNat + 4 * i := by
  have hb := h.ends
  have hr := h.size_le
  unfold maxRegion at hr
  have hi' : i.toUInt32.toNat = i := by rw [UInt32.toNat_ofNat']; omega
  simp only [UInt32.toNat_add, UInt32.toNat_mul, cellSize, hi', UInt32.reduceToNat]
  rw [Nat.mod_eq_of_lt (by omega), Nat.mod_eq_of_lt (by omega)]
  omega

/-- The next push writes just above the top cell. -/
theorem Fits.next_toNat (h : s.Fits r) : s.next.toNat = s.base.toNat + 4 * s.depth.toNat := by
  have ha := h.address_toNat (i := s.depth.toNat) (UInt32.le_iff_toNat_le.mp h.depth_le)
  simp only [UInt32.ofNat_toNat] at ha
  exact ha

/-- A stack's cells depend on the bytes of its live cells only. -/
theorem Fits.cells_congr (h : s.Fits r) {r' : Region} (hs : r'.bytes.size = r.bytes.size)
    (hr : ∀ j, s.base.toNat ≤ j → j < s.base.toNat + 4 * s.depth.toNat →
      r'.byteAt j = r.byteAt j) :
    s.cells r' = s.cells r := by
  have hd := UInt32.le_iff_toNat_le.mp h.depth_le
  rw [cells_def, cells_def]
  refine List.map_congr_left fun i hi => ?_
  have hi' := List.mem_range.mp hi
  have ha := h.address_toNat (i := i) (by omega)
  unfold readAt
  rw [Region.loadCell_congr hs fun j hj₁ hj₂ => hr j (by omega) (by omega)]

/-- A cell written above the top of a stack with room left reads back after a push. -/
theorem Fits.cells_raise_writeAt (h : s.Fits r) (hd : s.depth < s.cap) (v : UInt32) :
    s.raise.cells (r.writeAt s.next.toNat (bytesOfCell v)) = s.cells r ++ [v] := by
  have hd' := UInt32.lt_iff_toNat_lt.mp hd
  have hn := h.next_toNat
  have hraise : s.raise.depth.toNat = s.depth.toNat + 1 := by
    simp only [raise, UInt32.toNat_add, UInt32.reduceToNat]
    have := s.cap.toNat_lt
    omega
  have hold : s.cells (r.writeAt s.next.toNat (bytesOfCell v)) = s.cells r := by
    refine h.cells_congr (Region.size_writeAt r _ _) fun j _ hj₂ => ?_
    exact Region.byteAt_writeAt_of_not_mem r s.next.toNat j _ (.inl (by omega))
  have hal : s.next % 4 = 0 := by
    have h4 : s.next.toNat % 4 = 0 := by rw [hn]; have := h.aligned; omega
    exact UInt32.toNat_inj.mp (by simp [UInt32.toNat_mod, h4])
  have hnext : readAt (r.writeAt s.next.toNat (bytesOfCell v)) s.next = v := by
    unfold readAt
    rw [Region.loadCell_writeAt_self r s.next v hal (by have := h.ends; omega)]
  rw [← hold, cells_def, cells_def, hraise, List.range_succ, List.map_append]
  simp only [raise, List.map_cons, List.map_nil, UInt32.ofNat_toNat]
  rw [show s.base + s.depth * cellSize = s.next from rfl, hnext]

/-- A write that misses a stack's live cells leaves its cells as they were. -/
theorem Fits.cells_writeAt (h : s.Fits r) (i : Nat) (bs : List UInt8)
    (hd : i + bs.length ≤ s.base.toNat ∨ s.base.toNat + 4 * s.depth.toNat ≤ i) :
    s.cells (r.writeAt i bs) = s.cells r :=
  h.cells_congr (Region.size_writeAt r _ _) fun j hj₁ hj₂ =>
    Region.byteAt_writeAt_of_not_mem r i j bs (by omega)

/-- Lowering a stack by `n` cells forgets its top `n` cells. -/
theorem cells_lower (s : Stack) (r : Region) {n : UInt32} (hn : n ≤ s.depth) :
    { s with depth := s.depth - n }.cells r = (s.cells r).take (s.depth - n).toNat := by
  rw [cells_def, cells_def, ← List.map_take, List.take_range]
  congr 2
  have := UInt32.le_iff_toNat_le.mp hn
  rw [UInt32.toNat_sub_of_le _ _ hn]
  omega

theorem depth_sub_toUInt32 (s : Stack) {n : UInt32} (hn : n < s.depth) :
    (s.depth.toNat - 1 - n.toNat).toUInt32 = s.depth - 1 - n := by
  have hn' := UInt32.lt_iff_toNat_lt.mp hn
  have h1 : (s.depth - 1).toNat = s.depth.toNat - 1 :=
    UInt32.toNat_sub_of_le _ _ (UInt32.le_iff_toNat_le.mpr (by simp; omega))
  have h2 : (s.depth - 1 - n).toNat = s.depth.toNat - 1 - n.toNat := by
    rw [UInt32.toNat_sub_of_le _ _ (UInt32.le_iff_toNat_le.mpr (by omega)), h1]
  apply UInt32.toNat_inj.mp
  rw [UInt32.toNat_ofNat', h2]
  have := s.depth.toNat_lt
  omega

/-- The address of the `n`-th cell down from the top. -/
theorem Fits.slot_toNat (h : s.Fits r) {n : UInt32} (hn : n < s.depth) :
    (s.base + (s.depth - 1 - n) * cellSize).toNat =
      s.base.toNat + 4 * (s.depth.toNat - 1 - n.toNat) := by
  have hn' := UInt32.lt_iff_toNat_lt.mp hn
  have hd := UInt32.le_iff_toNat_le.mp h.depth_le
  have ha := h.address_toNat (i := s.depth.toNat - 1 - n.toNat) (by omega)
  rw [s.depth_sub_toUInt32 hn] at ha
  exact ha

theorem Fits.next_aligned (h : s.Fits r) : s.next.toNat % 4 = 0 := by
  rw [h.next_toNat]
  have := h.aligned
  omega

/-- A stack with room left takes a push: the region accepts the cell above its top. -/
theorem Fits.storCell_next (h : s.Fits r) (hd : s.depth < s.cap) (v : UInt32) :
    r.storCell s.next v = .ok (r.writeAt s.next.toNat (bytesOfCell v)) := by
  have hd' := UInt32.lt_iff_toNat_lt.mp hd
  have := h.ends
  exact Region.storCell_ok h.next_aligned (by rw [h.next_toNat]; omega) v

/-- The cell `n` down from the top, where it lives in the region. -/
def slotAddr (s : Stack) (n : UInt32) : UInt32 := s.base + (s.depth - 1 - n) * cellSize

theorem slot_eq (s : Stack) {n : UInt32} (hn : n < s.depth) : s.slot n = .ok (s.slotAddr n) := by
  simp [slot, slotAddr, hn]

theorem Fits.slotAddr_aligned (h : s.Fits r) {n : UInt32} (hn : n < s.depth) :
    (s.slotAddr n).toNat % 4 = 0 := by
  rw [slotAddr, h.slot_toNat hn]
  have := h.aligned
  omega

theorem readAt_of_ok {a v : UInt32} (h : r.loadCell a = .ok v) : readAt r a = v := by
  simp [readAt, h]

/-- The cell `n` down from the top can be read. -/
theorem Fits.loadCell_slotAddr (h : s.Fits r) {n : UInt32} (hn : n < s.depth) :
    r.loadCell (s.slotAddr n) = .ok (readAt r (s.slotAddr n)) := by
  have hn' := UInt32.lt_iff_toNat_lt.mp hn
  have hd := UInt32.le_iff_toNat_le.mp h.depth_le
  have he := h.ends
  have hs := h.slot_toNat hn
  have hok := Region.loadCell_ok (r := r) (h.slotAddr_aligned hn) (by rw [slotAddr]; omega)
  rw [hok, readAt_of_ok hok]

/-- The cell `n` down from the top is the cells' entry at that position. -/
theorem getD_cells (s : Stack) (r : Region) {n : UInt32} (hn : n < s.depth) :
    (s.cells r).getD (s.depth.toNat - 1 - n.toNat) 0 = readAt r (s.slotAddr n) := by
  have hn' := UInt32.lt_iff_toNat_lt.mp hn
  rw [cells_def, List.getD_eq_getElem?_getD, List.getElem?_map, List.getElem?_range (by omega)]
  simp only [Option.map_some, Option.getD_some, slotAddr, s.depth_sub_toUInt32 hn]

/-- A write over the cell `n` down from the top replaces that entry of the cells. -/
theorem Fits.cells_writeAt_slotAddr (h : s.Fits r) {n : UInt32} (hn : n < s.depth) (v : UInt32) :
    s.cells (r.writeAt (s.slotAddr n).toNat (bytesOfCell v)) =
      (s.cells r).set (s.depth.toNat - 1 - n.toNat) v := by
  have hn' := UInt32.lt_iff_toNat_lt.mp hn
  have hd := UInt32.le_iff_toNat_le.mp h.depth_le
  have he := h.ends
  have hs := h.slot_toNat hn
  rw [← slotAddr] at hs
  apply List.ext_getElem?
  intro k
  rw [List.getElem?_set, cells_length, cells_def, cells_def, List.getElem?_map,
    List.getElem?_map]
  by_cases hk : k < s.depth.toNat
  · have ha := h.address_toNat (i := k) (by omega)
    rw [List.getElem?_range hk]
    simp only [Option.map_some]
    by_cases hkn : s.depth.toNat - 1 - n.toNat = k
    · -- the entry written: its address is the slot's
      subst hkn
      rw [if_pos rfl, if_pos hk, s.depth_sub_toUInt32 hn, ← slotAddr]
      simp only [readAt, Region.loadCell_writeAt_self r _ v
        (Region.toNat_mod_four (h.slotAddr_aligned hn)) (by omega)]
    · rw [if_neg hkn]
      simp only [readAt]
      rw [Region.loadCell_writeAt_of_disjoint _ _ _ _
        (by rw [Region.length_bytesOfCell, ha, hs]; omega)]
  · rw [List.getElem?_eq_none (by simp; omega)]
    simp [show s.depth.toNat - 1 - n.toNat ≠ k by omega]

end Stack



/-! ## The partition invariant -/

/-- The fixup kinds whose site the word closing the structure patches. -/
def Fixup.patched : Fixup → Bool
  | .ifMark | .elseMark | .whileMark | .doMark => true
  | _ => false

/-- The configurations whose stacks and block buffers, with the dictionary's first cells,
add up to a size that 64 bits hold. -/
def Settings.SizesFit (s : Settings) : Prop :=
  dictBase.toNat + (if s.disk.isSome then 2 * blockSize else 0) + 4 * s.dataCap.toNat +
    8 * s.controlCap.toNat + 4 * s.returnCap.toNat < UInt64.size

namespace Layout

variable (L : Layout)

/-- The `n` bytes at `a` lie in the data space. -/
def InData (a : UInt32) (n : Nat) : Prop := 4 ≤ a.toNat ∧ a.toNat + n ≤ L.dataLimit

/-- Every pending fixup that a closing word will patch names a cell of the data space; the
control stack holds (kind, site) pairs, bottom first. -/
def FixupsValid (cs : List UInt32) : Prop :=
  ∀ i, 2 * i + 1 < cs.length → (Fixup.ofCode (cs.getD (2 * i) 0)).patched →
    L.InData (cs.getD (2 * i + 1) 0) 4

/-- A block buffer of the right size inside the data space. -/
def SlotFits (s : Slot) : Prop :=
  4 ≤ s.addr.toNat ∧ s.addr.toNat + blockSize ≤ L.dataLimit ∧ s.buf.size = blockSize

end Layout

/-- The parts of a machine that its partition invariant reads. -/
structure Machine.Shape where
  settings : Settings
  region : Region
  here : UInt32
  latest : UInt32
  dictLimit : UInt32
  dataLimit : UInt32
  openWord : UInt32
  openHere : UInt32
  openLatest : UInt32
  data : Stack
  ret : Stack
  control : Stack
  cache : Option Cache

/-- The parts of a machine that its partition invariant reads. -/
def Machine.shape (m : Machine) : Machine.Shape :=
  ⟨m.settings, m.region, m.here, m.latest, m.dictLimit, m.dataLimit, m.openWord, m.openHere,
    m.openLatest, m.data, m.ret, m.control, m.cache⟩

/-- The stack with a given role. -/
def Machine.Shape.stack (sh : Machine.Shape) : StackName → Stack
  | .data => sh.data
  | .ret => sh.ret
  | .control => sh.control

/-- A machine shape that lies where a layout puts it: the region has the layout's size, the
stacks sit in their partitions no deeper than their capacity, the dictionary cursors lie in
the dictionary, the record of an open definition can be restored, every pending fixup and
block buffer lies in the data space, the first cell of the region is never written, and the
configuration fits. -/
structure Layout.Holds (L : Layout) (sh : Machine.Shape) : Prop where
  size : sh.region.bytes.size = L.size
  dictLimit : sh.dictLimit.toNat = L.dictLimit
  dataLimit : sh.dataLimit.toNat = L.dataLimit
  base : ∀ st, (sh.stack st).base.toNat = L.base st
  cap : ∀ st, (sh.stack st).cap.toNat = L.cap st
  depth_le : ∀ st, (sh.stack st).depth ≤ (sh.stack st).cap
  here_ge : 8 ≤ sh.here.toNat
  here_le : sh.here.toNat ≤ L.dictLimit
  here_aligned : sh.here.toNat % 4 = 0
  latest : sh.latest = 0 ∨ sh.latest.toNat + 8 ≤ sh.here.toNat
  opened : sh.openWord ≠ 0 → sh.openWord ≤ sh.latest ∧ 8 ≤ sh.openHere.toNat ∧
    sh.openHere.toNat ≤ L.dictLimit ∧ sh.openHere.toNat % 4 = 0 ∧
    (sh.openLatest = 0 ∨ sh.openLatest.toNat + 8 ≤ sh.openHere.toNat)
  control_even : sh.control.depth.toNat % 2 = 0
  fixups : L.FixupsValid (sh.control.cells sh.region)
  cache : ∀ c, sh.cache = some c → L.SlotFits c.active ∧ L.SlotFits c.older
  low : ∀ j, j < 4 → sh.region.byteAt j = 0
  fits : sh.settings.SizesFit

/-- The machine lies where the layout `L` puts it. It reads only the machine's shape, so an
update of any other field keeps it by definition. -/
abbrev Machine.Sane (m : Machine) (L : Layout) : Prop := L.Holds m.shape

@[simp] theorem Machine.shape_stack (m : Machine) (st : StackName) :
    m.shape.stack st = m.stack st := by
  cases st <;> rfl

namespace Machine.Sane

variable {m : Machine} {L : Layout}

theorem stack_fits (h : m.Sane L) (st : StackName) : (m.stack st).Fits m.region where
  depth_le := by simpa using h.depth_le st
  ends := by
    have hb := h.base st
    have hc := h.cap st
    have := L.base_add_cap_le st
    simp only [Machine.shape_stack] at hb hc
    rw [hb, hc, show m.region = m.shape.region from rfl, h.size]
    exact this
  size_le := by rw [show m.region = m.shape.region from rfl, h.size]; exact L.size_le
  aligned := by
    have hb := h.base st
    simp only [Machine.shape_stack] at hb
    rw [hb]
    exact L.base_aligned st

end Machine.Sane

@[simp] theorem Machine.stack_setStack_self (m : Machine) (st : StackName) (t : Stack) :
    (m.setStack st t).stack st = t := by
  cases st <;> rfl

theorem Machine.stack_setStack_of_ne (m : Machine) {st st' : StackName} (t : Stack)
    (h : st' ≠ st) : (m.setStack st t).stack st' = m.stack st' := by
  cases st <;> cases st' <;> first | rfl | exact absurd rfl h

@[simp] theorem Machine.region_setStack (m : Machine) (st : StackName) (t : Stack) :
    (m.setStack st t).region = m.region := by
  cases st <;> rfl

theorem Machine.cells_def (m : Machine) (st : StackName) :
    m.cells st = (m.stack st).cells m.region := rfl

namespace Machine.Sane

variable {m : Machine} {L : Layout}

/-- A change of the region that keeps its size, its first cell and the control stack's cells
keeps the invariant. -/
theorem of_region (h : m.Sane L) {r : Region} (hs : r.bytes.size = m.region.bytes.size)
    (hlow : ∀ j, j < 4 → r.byteAt j = m.region.byteAt j)
    (hctl : m.control.cells r = m.control.cells m.region) :
    { m with region := r }.Sane L :=
  { h with
    size := hs.trans h.size
    fixups := by
      show L.FixupsValid (m.control.cells r)
      rw [hctl]
      exact h.fixups
    low := fun j hj => (hlow j hj).trans (h.low j hj) }

/-- A change of the region confined to the data space leaves every stack's cells as they
were. -/
theorem cells_of_dataWrite (h : m.Sane L) {r : Region} (hs : r.bytes.size = m.region.bytes.size)
    (hb : ∀ j, L.dataLimit ≤ j → r.byteAt j = m.region.byteAt j) (st : StackName) :
    (m.stack st).cells r = m.cells st := by
  have hbase := h.base st
  simp only [Machine.shape_stack] at hbase
  exact (h.stack_fits st).cells_congr hs fun j hj₁ _ =>
    hb j (by have := L.dataLimit_le_base st; omega)

/-- A change of the region confined to the data space from cell 4 on keeps the invariant. -/
theorem of_dataWrite (h : m.Sane L) {r : Region} (hs : r.bytes.size = m.region.bytes.size)
    (hb : ∀ j, (j < 4 ∨ L.dataLimit ≤ j) → r.byteAt j = m.region.byteAt j) :
    { m with region := r }.Sane L :=
  h.of_region hs (fun j hj => hb j (.inl hj))
    (h.cells_of_dataWrite hs (fun j hj => hb j (.inr hj)) .control)

/-- Bytes written inside the data space, from cell 4 on, keep the invariant. -/
theorem writeAt (h : m.Sane L) {i : Nat} {bs : List UInt8} (hi₁ : 4 ≤ i)
    (hi₂ : i + bs.length ≤ L.dataLimit) : { m with region := m.region.writeAt i bs }.Sane L :=
  h.of_dataWrite (Region.size_writeAt _ _ _)
    fun j hj => Region.byteAt_writeAt_of_not_mem _ _ _ _ (by omega)

/-- Bytes filled inside the data space, from cell 4 on, keep the invariant. -/
theorem fillAt (h : m.Sane L) {i n : Nat} (b : UInt8) (hi₁ : 4 ≤ i) (hi₂ : i + n ≤ L.dataLimit) :
    { m with region := m.region.fillAt i b n }.Sane L :=
  h.of_dataWrite (Region.size_fillAt _ _ _ _)
    fun j hj => Region.byteAt_fillAt_of_not_mem _ _ _ _ _ (by omega)

/-- Moving `here` within the dictionary, to a cell boundary above the newest header, keeps
the invariant. -/
theorem withHere (h : m.Sane L) {here : UInt32} (h₁ : 8 ≤ here.toNat) (h₂ : here.toNat ≤ L.dictLimit)
    (h₃ : here.toNat % 4 = 0) (hl : m.latest = 0 ∨ m.latest.toNat + 8 ≤ here.toNat) :
    { m with here := here }.Sane L :=
  { h with here_ge := h₁, here_le := h₂, here_aligned := h₃, latest := hl }

/-- Space reserved at `here` and zeroed, inside the dictionary, keeps the invariant. -/
theorem allocated (h : m.Sane L) {n : UInt32} (hn : n.toNat % 4 = 0)
    (hfit : m.here.toNat + n.toNat ≤ L.dictLimit) :
    { m with region := m.region.fillAt m.here.toNat 0 n.toNat, here := m.here + n }.Sane L := by
  have hg : 8 ≤ m.here.toNat := h.here_ge
  have ha : m.here.toNat % 4 = 0 := h.here_aligned
  have hl : m.latest = 0 ∨ m.latest.toNat + 8 ≤ m.here.toNat := h.latest
  have hlim := L.dictLimit_le
  have hsz := L.size_le
  have hfill := h.fillAt 0 (i := m.here.toNat) (n := n.toNat) (by omega) (by omega)
  have hadd : (m.here + n).toNat = m.here.toNat + n.toNat := by
    rw [UInt32.toNat_add]
    have := L.fills
    unfold maxRegion at hsz
    omega
  exact hfill.withHere (by omega) (by omega) (by omega)
    (hl.imp_right fun hl => show m.latest.toNat + 8 ≤ (m.here + n).toNat by omega)

/-- Replacing a stack by one in the same partition and no deeper than its capacity keeps the
invariant, if a new control stack keeps an even depth and valid fixups. -/
theorem setStack (h : m.Sane L) {st : StackName} {t : Stack}
    (hb : t.base = (m.stack st).base) (hc : t.cap = (m.stack st).cap) (hd : t.depth ≤ t.cap)
    (hctl : st = .control → t.depth.toNat % 2 = 0 ∧ L.FixupsValid (t.cells m.region)) :
    (m.setStack st t).Sane L := by
  have hstk : ∀ st', (m.setStack st t).stack st' = if st' = st then t else m.stack st' :=
    fun st' => by
      by_cases e : st' = st
      · subst e
        simp
      · rw [if_neg e, Machine.stack_setStack_of_ne _ _ e]
  have hbase : ∀ st', ((m.setStack st t).shape.stack st').base.toNat = L.base st' := fun st' => by
    have := h.base st'
    simp only [Machine.shape_stack, hstk] at this ⊢
    split <;> simp_all
  have hcap : ∀ st', ((m.setStack st t).shape.stack st').cap.toNat = L.cap st' := fun st' => by
    have := h.cap st'
    simp only [Machine.shape_stack, hstk] at this ⊢
    split <;> simp_all
  have hdep : ∀ st', ((m.setStack st t).shape.stack st').depth ≤
      ((m.setStack st t).shape.stack st').cap := fun st' => by
    have := h.depth_le st'
    simp only [Machine.shape_stack, hstk] at this ⊢
    split <;> simp_all
  cases st with
  | data => exact { h with base := hbase, cap := hcap, depth_le := hdep }
  | ret => exact { h with base := hbase, cap := hcap, depth_le := hdep }
  | control =>
    exact { h with base := hbase, cap := hcap, depth_le := hdep,
                   control_even := (hctl rfl).1, fixups := (hctl rfl).2 }

end Machine.Sane

/-! ## Stack operations on a machine -/

theorem push_run (m : Machine) (st : StackName) (v : UInt32) :
    (push st v).run m =
      if (m.stack st).full then .error (.stack ((m.stack st).err .overflow)) m
      else match m.region.storCell (m.stack st).next v with
        | .ok r => .ok () ({ m with region := r }.setStack st (m.stack st).raise)
        | .error e => .error (.address e) m := by
  simp only [push, EStateM.run_bind, EStateM.run_get]
  split
  · rfl
  · simp only [EStateM.run_bind, storCell_run]
    cases m.region.storCell (m.stack st).next v <;> rfl

theorem peek_run (m : Machine) (st : StackName) (n : UInt32) :
    (peek st n).run m = match (m.stack st).slot n with
      | .ok a => match m.region.loadCell a with
        | .ok v => .ok v m
        | .error e => .error (.address e) m
      | .error e => .error (.stack e) m := by
  simp only [peek, loadCell, Vm.ofStack, Vm.ofRegion, EStateM.run_bind, EStateM.run_get]
  cases (m.stack st).slot n with
  | ok a =>
    simp only [EStateM.run_pure]
    cases m.region.loadCell a <;> rfl
  | error e => rfl

theorem dropCells_run (m : Machine) (st : StackName) (n : UInt32) :
    (dropCells st n).run m = if n ≤ (m.stack st).depth then
        .ok () (m.setStack st { m.stack st with depth := (m.stack st).depth - n })
      else .error (.stack ((m.stack st).err .underflow)) m := by
  simp only [dropCells, Vm.ofStack, EStateM.run_bind, EStateM.run_get, Stack.lower]
  by_cases hn : n ≤ (m.stack st).depth
  · simp only [hn, ↓reduceIte, EStateM.run_pure, EStateM.run_modify]
  · simp only [hn, ↓reduceIte]
    rfl

theorem poke_run (m : Machine) (st : StackName) (n v : UInt32) :
    (poke st n v).run m = match (m.stack st).slot n with
      | .ok a => match m.region.storCell a v with
        | .ok r => .ok () { m with region := r }
        | .error e => .error (.address e) m
      | .error e => .error (.stack e) m := by
  simp only [poke, Vm.ofStack, EStateM.run_bind, EStateM.run_get]
  cases (m.stack st).slot n with
  | ok a => exact storCell_run m a v
  | error e => rfl

/-- **Drop.** Dropping `n` cells removes the top `n` of its stack's cells and leaves the other
stacks' cells as they were. -/
theorem cells_dropCells {m : Machine} {st : StackName} {n : UInt32} {m' : Machine}
    (hr : (dropCells st n).run m = .ok () m') :
    m'.cells st = (m.cells st).take ((m.cells st).length - n.toNat) ∧
      ∀ st', st' ≠ st → m'.cells st' = m.cells st' := by
  rw [dropCells_run] at hr
  split at hr
  · rename_i hn
    cases hr
    refine ⟨?_, fun st' hne => ?_⟩
    · simp only [Machine.cells_def, Machine.stack_setStack_self, Machine.region_setStack]
      rw [Stack.cells_lower _ _ hn, UInt32.toNat_sub_of_le _ _ hn, Stack.cells_length]
    · simp only [Machine.cells_def, Machine.stack_setStack_of_ne _ _ hne, Machine.region_setStack]
  · cases hr

namespace Machine.Sane

variable {m : Machine} {L : Layout} {st : StackName}

/-- A push onto a stack with room left writes the cell above its top and raises the stack. -/
theorem push_run_of_lt (h : m.Sane L) (hd : (m.stack st).depth < (m.stack st).cap) (v : UInt32) :
    (push st v).run m = .ok ()
      ({ m with region := m.region.writeAt (m.stack st).next.toNat (bytesOfCell v) }.setStack st
        (m.stack st).raise) := by
  rw [push_run, if_neg (by simpa [Stack.full] using hd), (h.stack_fits st).storCell_next hd]

/-- The cells of another stack lie outside the partition of `st`, so a write inside that
partition leaves them as they were. -/
theorem cells_writeAt_other (h : m.Sane L) {st' : StackName} (hne : st' ≠ st) {i : Nat}
    {bs : List UInt8} (hi₁ : L.base st ≤ i) (hi₂ : i + bs.length ≤ L.base st + 4 * L.cap st) :
    (m.stack st').cells (m.region.writeAt i bs) = m.cells st' := by
  have hb := h.base st'
  have hc := h.cap st'
  have hd := UInt32.le_iff_toNat_le.mp ((h.stack_fits st').depth_le)
  simp only [Machine.shape_stack] at hb hc
  have := L.disjoint hne
  exact (h.stack_fits st').cells_writeAt i bs (by omega)

/-- **Push.** A push appends the value to its stack's cells and leaves the other stacks'
cells as they were. -/
theorem cells_push (h : m.Sane L) {v : UInt32} {m' : Machine}
    (hr : (push st v).run m = .ok () m') :
    m'.cells st = m.cells st ++ [v] ∧ ∀ st', st' ≠ st → m'.cells st' = m.cells st' := by
  by_cases hd : (m.stack st).depth < (m.stack st).cap
  · rw [h.push_run_of_lt hd] at hr
    cases hr
    have hf := h.stack_fits st
    have hb := h.base st
    have hc := h.cap st
    have hdd := UInt32.lt_iff_toNat_lt.mp hd
    simp only [Machine.shape_stack] at hb hc
    refine ⟨?_, fun st' hne => ?_⟩
    · simp only [Machine.cells_def, Machine.stack_setStack_self, Machine.region_setStack]
      exact hf.cells_raise_writeAt hd v
    · simp only [Machine.cells_def, Machine.stack_setStack_of_ne _ _ hne, Machine.region_setStack]
      exact h.cells_writeAt_other hne (by rw [hf.next_toNat, hb]; omega)
        (by rw [Region.length_bytesOfCell, hf.next_toNat, hb, ← hc]; omega)
  · rw [push_run, if_pos (by simpa [Stack.full] using hd)] at hr
    cases hr

/-- A push onto a stack other than the control stack keeps the invariant. -/
theorem push (h : m.Sane L) (hst : st ≠ .control) {v : UInt32} {m' : Machine}
    (hr : (push st v).run m = .ok () m') : m'.Sane L := by
  by_cases hd : (m.stack st).depth < (m.stack st).cap
  · have hcells := (h.cells_push hr).2 .control (Ne.symm hst)
    rw [h.push_run_of_lt hd] at hr
    cases hr
    have hf := h.stack_fits st
    have hb := h.base st
    simp only [Machine.shape_stack] at hb
    have hlow : ∀ j, j < 4 → (m.region.writeAt (m.stack st).next.toNat (bytesOfCell v)).byteAt j =
        m.region.byteAt j := fun j hj =>
      Region.byteAt_writeAt_of_not_mem _ _ _ _
        (.inl (by rw [hf.next_toNat, hb]; have := L.dataLimit_le_base st; have := L.dictLimit_ge;
                  have := L.dictLimit_le; omega))
    refine (h.of_region (Region.size_writeAt _ _ _) hlow ?_).setStack rfl rfl ?_ fun e => absurd e hst
    · simp only [Machine.cells_def, Machine.stack_setStack_of_ne _ _ (Ne.symm hst),
        Machine.region_setStack] at hcells
      exact hcells
    · have hdd := UInt32.lt_iff_toNat_lt.mp hd
      apply UInt32.le_iff_toNat_le.mpr
      simp only [Stack.raise, UInt32.toNat_add, UInt32.reduceToNat]
      have := (m.stack st).cap.toNat_lt
      omega
  · rw [push_run, if_pos (by simpa [Stack.full] using hd)] at hr
    cases hr

/-- The cell `n` down from the top of a stack deeper than `n`. -/
theorem peek_run_of_lt (h : m.Sane L) {n : UInt32} (hn : n < (m.stack st).depth) :
    (peek st n).run m = .ok ((m.cells st).getD ((m.stack st).depth.toNat - 1 - n.toNat) 0) m := by
  rw [peek_run, Stack.slot_eq _ hn]
  simp only [(h.stack_fits st).loadCell_slotAddr hn, Machine.cells_def, Stack.getD_cells _ _ hn]

/-- A pop from a stack that is not empty returns its top cell and lowers it. -/
theorem pop_run_of_pos (h : m.Sane L) (hd : 0 < (m.stack st).depth) :
    (pop st).run m = .ok ((m.cells st).getD ((m.stack st).depth.toNat - 1) 0)
      (m.setStack st { m.stack st with depth := (m.stack st).depth - 1 }) := by
  have h1 : (1 : UInt32) ≤ (m.stack st).depth := UInt32.le_iff_toNat_le.mpr
    (by have := UInt32.lt_iff_toNat_lt.mp hd; simp; omega)
  simp only [pop, EStateM.run_bind, h.peek_run_of_lt hd, dropCells_run, if_pos h1]
  simp

/-- **Pop.** A pop returns the top cell of its stack and removes it from the cells, leaving
the other stacks' cells as they were. -/
theorem cells_pop (h : m.Sane L) {v : UInt32} {m' : Machine} (hr : (pop st).run m = .ok v m') :
    m.cells st = m'.cells st ++ [v] ∧ ∀ st', st' ≠ st → m'.cells st' = m.cells st' := by
  by_cases hd : 0 < (m.stack st).depth
  · rw [h.pop_run_of_pos hd] at hr
    cases hr
    have hd' := UInt32.lt_iff_toNat_lt.mp hd
    refine ⟨?_, fun st' hne => ?_⟩
    · simp only [Machine.cells_def, Machine.stack_setStack_self, Machine.region_setStack]
      rw [Stack.cells_lower _ _ (UInt32.le_iff_toNat_le.mpr (by simp; omega)),
        UInt32.toNat_sub_of_le _ _ (UInt32.le_iff_toNat_le.mpr (by simp; omega))]
      -- a nonempty list is its front and its last entry
      have hl := (m.stack st).cells_length m.region
      have hk : (m.stack st).depth.toNat - 1 < ((m.stack st).cells m.region).length := by omega
      simp only [UInt32.reduceToNat]
      rw [List.getD_eq_getElem _ _ hk]
      conv_lhs => rw [← List.take_append_drop ((m.stack st).depth.toNat - 1) ((m.stack st).cells m.region)]
      rw [List.drop_eq_getElem_cons hk, List.drop_eq_nil_of_le (by omega)]
    · simp only [Machine.cells_def, Machine.stack_setStack_of_ne _ _ hne, Machine.region_setStack]
  · have h0 : (m.stack st).depth = 0 := by
      have := UInt32.lt_iff_toNat_lt.not.mp hd
      exact UInt32.toNat_inj.mp (by simp at this; simp; omega)
    simp only [pop, EStateM.run_bind, peek_run, Stack.slot, h0] at hr
    simp at hr

theorem depth_sub_le (s : Stack) {n : UInt32} (hn : n ≤ s.depth) (hd : s.depth ≤ s.cap) :
    s.depth - n ≤ s.cap := by
  have := UInt32.le_iff_toNat_le.mp hn
  have := UInt32.le_iff_toNat_le.mp hd
  apply UInt32.le_iff_toNat_le.mpr
  rw [UInt32.toNat_sub_of_le _ _ hn]
  omega

/-- Lowering a stack other than the control stack keeps the invariant. -/
theorem lower (h : m.Sane L) (hst : st ≠ .control) {n : UInt32} (hn : n ≤ (m.stack st).depth) :
    (m.setStack st { m.stack st with depth := (m.stack st).depth - n }).Sane L :=
  h.setStack rfl rfl (depth_sub_le _ hn (h.stack_fits st).depth_le) fun e => absurd e hst

theorem dropCells_sane (h : m.Sane L) (hst : st ≠ .control) {n : UInt32} {m' : Machine}
    (hr : (dropCells st n).run m = .ok () m') : m'.Sane L := by
  rw [dropCells_run] at hr
  split at hr
  · cases hr
    exact h.lower hst ‹_›
  · cases hr

theorem pop_sane (h : m.Sane L) (hst : st ≠ .control) {v : UInt32} {m' : Machine}
    (hr : (pop st).run m = .ok v m') : m'.Sane L := by
  by_cases hd : 0 < (m.stack st).depth
  · rw [h.pop_run_of_pos hd] at hr
    cases hr
    exact h.lower hst (UInt32.le_iff_toNat_le.mpr
      (by have := UInt32.lt_iff_toNat_lt.mp hd; simp; omega))
  · have h0 : (m.stack st).depth = 0 := by
      have := UInt32.lt_iff_toNat_lt.not.mp hd
      exact UInt32.toNat_inj.mp (by simp at this; simp; omega)
    simp only [pop, EStateM.run_bind, peek_run, Stack.slot, h0] at hr
    simp at hr

/-- A poke below the top of a stack writes the cell where it lives. -/
theorem poke_run_of_lt (h : m.Sane L) {n : UInt32} (hn : n < (m.stack st).depth) (v : UInt32) :
    (poke st n v).run m = .ok ()
      { m with region := m.region.writeAt ((m.stack st).slotAddr n).toNat (bytesOfCell v) } := by
  have hf := h.stack_fits st
  have hs := hf.slot_toNat hn
  have hn' := UInt32.lt_iff_toNat_lt.mp hn
  have hd := UInt32.le_iff_toNat_le.mp hf.depth_le
  have he := hf.ends
  rw [← Stack.slotAddr] at hs
  rw [poke_run, Stack.slot_eq _ hn]
  simp only [Region.storCell_ok (r := m.region) (hf.slotAddr_aligned hn) (by omega)]

/-- **Poke.** A poke replaces the entry of its stack's cells `n` down from the top and leaves
the other stacks' cells as they were. -/
theorem cells_poke (h : m.Sane L) {n v : UInt32} {m' : Machine}
    (hr : (poke st n v).run m = .ok () m') :
    m'.cells st = (m.cells st).set ((m.cells st).length - 1 - n.toNat) v ∧
      ∀ st', st' ≠ st → m'.cells st' = m.cells st' := by
  by_cases hn : n < (m.stack st).depth
  · rw [h.poke_run_of_lt hn] at hr
    cases hr
    have hf := h.stack_fits st
    have hs := hf.slot_toNat hn
    have hb := h.base st
    have hc := h.cap st
    have hn' := UInt32.lt_iff_toNat_lt.mp hn
    have hd := UInt32.le_iff_toNat_le.mp hf.depth_le
    simp only [Machine.shape_stack] at hb hc
    rw [← Stack.slotAddr] at hs
    refine ⟨?_, fun st' hne => ?_⟩
    · rw [Machine.cells_def, Machine.cells_def, Stack.cells_length]
      exact hf.cells_writeAt_slotAddr hn v
    · exact h.cells_writeAt_other hne (by rw [hs, hb]; omega)
        (by rw [Region.length_bytesOfCell, hs, hb, ← hc]; omega)
  · rw [poke_run, Stack.slot, if_neg hn] at hr
    cases hr

theorem poke_sane (h : m.Sane L) (hst : st ≠ .control) {n v : UInt32} {m' : Machine}
    (hr : (poke st n v).run m = .ok () m') : m'.Sane L := by
  by_cases hn : n < (m.stack st).depth
  · have hctl := (h.cells_poke hr).2 .control (Ne.symm hst)
    rw [h.poke_run_of_lt hn] at hr
    cases hr
    have hf := h.stack_fits st
    have hs := hf.slot_toNat hn
    have hb := h.base st
    simp only [Machine.shape_stack] at hb
    rw [← Stack.slotAddr] at hs
    refine h.of_region (Region.size_writeAt _ _ _) (fun j hj => ?_) hctl
    exact Region.byteAt_writeAt_of_not_mem _ _ _ _
      (.inl (by rw [hs, hb]; have := L.dataLimit_le_base st; have := L.dictLimit_ge;
                have := L.dictLimit_le; omega))
  · rw [poke_run, Stack.slot, if_neg hn] at hr
    cases hr

end Machine.Sane

end ForthMachine
