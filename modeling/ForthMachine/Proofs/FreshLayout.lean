import Mathlib
import ForthMachine.Proofs.DefinedName
import ForthMachine.Proofs.OpenDefinition

/-!
# A new machine lies in its partition

Laying a machine out computes the stacks' partitions from the end of the region down: each
stack's size in bytes is its capacity times the cell size (two cells a control entry), and these
with the dictionary's first cells and the block buffers make the space it needs. The sizes are
64-bit quantities, so a configuration whose sizes do not fit 64 bits wraps; this module is about
the configurations whose sizes fit (`Settings.SizesFit`).

For those, laying out either fails or makes a layout (`Layout.Made`) of the region's size, with
each stack's capacity and, with a device, the two block buffers between the dictionary and the
data limit. The bases it computes by subtraction from the region's end are the layout's
(`Layout.Made.bases`), the machine it builds lies in the layout (`Layout.Made.holds`), and
installing the primitives keeps it there: `define` and `compileToken` write inside the
dictionary, and a new header lies a header's length below the new `here`.

The main statement is `create_laid_out`: a machine created with sizes that fit either reports
the failure of its layout, or lies in a layout whose partitions are ordered and hold their
stacks' capacities, and on which a push overflows exactly when its stack is full and never
faults on an address.
-/

open Std.Do

set_option mvcgen.warning false

namespace ForthMachine

open ForthMachine.Text ForthMachine.Memory ForthMachine.Block

/-! ## Headers and pushes on a machine in its partition -/

namespace Machine.Sane

variable {m : Machine} {L : Layout}

/-- Making a header at or above the newest one the newest word, a header's length below
`here`, keeps the invariant. -/
theorem withLatest (h : m.Sane L) {l : UInt32} (hl : m.latest ≤ l)
    (h8 : l.toNat + 8 ≤ m.here.toNat) : { m with latest := l }.Sane L :=
  { h with
    latest := .inr h8
    opened := fun hw => by
      obtain ⟨hwl, rest⟩ := h.opened hw
      exact ⟨UInt32.le_trans hwl hl, rest⟩ }

/-- A header written at `here`, with room for it below the dictionary's limit, keeps the
invariant: its name, link and flags go to the cells allocation zeroed in the dictionary, and
the new header lies above the newest one, a header's length below the new `here`. -/
theorem addHeader (h : m.Sane L) {name : Bytes} {flags : UInt8} {tr : Array Bytes}
    (hn : name.length ≤ 4 * maxNameLen)
    (hroom : m.here.toNat + (name.length + 3) / 4 * 4 + 8 ≤ L.dictLimit) :
    (m.addHeader name flags tr).Sane L := by
  have hd : m.dictLimit.toNat = L.dictLimit := h.dictLimit
  have hdl := m.dictLimit.toNat_lt
  have hlim := L.dictLimit_le
  have hg : 8 ≤ m.here.toNat := h.here_ge
  have hl : m.latest = 0 ∨ m.latest.toNat + 8 ≤ m.here.toNat := h.latest
  obtain ⟨-, -, hk⟩ := header_space hn
  obtain ⟨hh, hh4⟩ := header_at hn
    (show m.here.toNat + (name.length + 3) / 4 * 4 + 8 ≤ m.dictLimit.toNat by omega)
  have hhere : (m.here + alignUp (alignUp name.length.toUInt32 + headerSize)).toNat =
      m.here.toNat + (name.length + 3) / 4 * 4 + 8 := by
    rw [UInt32.toNat_add, hk]
    omega
  have hs1 := h.allocated (n := alignUp (alignUp name.length.toUInt32 + headerSize))
    (alignUp_toNat_mod _) (by omega)
  -- the name, the link and the flags all lie in the cells just allocated
  have hs2 := hs1.of_dataWrite (r := (m.addHeader name flags tr).region)
    (by simp [Machine.addHeader]) fun j hj => by
      simp only [Machine.addHeader]
      rw [Region.byteAt_writeAt_of_not_mem _ _ _ _
          (by simp only [Region.length_bytesOfCell]; omega),
        Region.byteAt_writeAt_of_not_mem _ _ _ _
          (by simp only [Region.length_bytesOfCell]; omega),
        Region.byteAt_writeAt_of_not_mem _ _ _ _ (by omega)]
  refine hs2.withLatest (l := m.here + alignUp name.length.toUInt32) ?_ ?_
  · dsimp only
    rcases hl with hl | hl
    · rw [hl]
      exact UInt32.zero_le
    · exact UInt32.le_iff_toNat_le.mpr (by omega)
  · dsimp only
    omega

/-- On a machine in its partition a push never faults on an address: it overflows exactly when
its stack is full, and otherwise writes the cell above the top. -/
theorem push_run_eq (h : m.Sane L) (st : StackName) (v : UInt32) :
    (ForthMachine.push st v).run m = if (m.stack st).depth = (m.stack st).cap then
        .error (.stack ((m.stack st).err .overflow)) m
      else .ok () ({ m with region := m.region.writeAt (m.stack st).next.toNat (bytesOfCell v) }.setStack
        st (m.stack st).raise) := by
  have hle := (h.stack_fits st).depth_le
  by_cases hd : (m.stack st).depth = (m.stack st).cap
  · rw [if_pos hd, push_run, if_pos (by simp [Stack.full, hd])]
  · rw [if_neg hd, h.push_run_of_lt (UInt32.lt_of_le_of_ne hle hd)]

end Machine.Sane

/-! ## Installing primitives keeps the partition -/

namespace Layout

variable (L : Layout)

/-- A header appended at `here` keeps the partition, or `define` finds the dictionary full and
changes nothing. -/
@[scoped spec] theorem define_sane (name : Bytes) (flags : UInt8) :
    ⦃fun s => ⌜s.Sane L⌝⦄ define name flags ⦃post⟨fun _ s => ⌜s.Sane L⌝, fun _ s => ⌜s.Sane L⌝⟩⦄ :=
  Vm.triple_of_run fun s hs => by
    have hrun := define_run hs.dictRoom name flags
    have hn := foldName_length_le s.settings.caseSensitive name
    have hd : s.dictLimit.toNat = L.dictLimit := hs.dictLimit
    dsimp only at hrun
    generalize foldName s.settings.caseSensitive name = name' at hrun hn
    split at hrun
    · rw [hrun]
      exact hs
    · obtain ⟨tr, hrun⟩ := hrun
      rw [hrun]
      exact hs.addHeader hn (by omega)

@[scoped spec] theorem compileCell_sane (v : UInt32) :
    ⦃fun s => ⌜s.Sane L⌝⦄ compileCell v ⦃post⟨fun _ s => ⌜s.Sane L⌝, fun _ s => ⌜s.Sane L⌝⟩⦄ := by
  mvcgen [compileCell]
  rename_i a s hs
  obtain ⟨hs, ha, hfit⟩ := hs
  have h4 : (alignUp 4).toNat = 4 := by decide
  have := L.dictLimit_le
  exact ⟨hs, by omega, by omega⟩

@[scoped spec] theorem compileToken_sane (k : TokenKind) (a : UInt32) :
    ⦃fun s => ⌜s.Sane L⌝⦄ compileToken k a ⦃post⟨fun _ s => ⌜s.Sane L⌝, fun _ s => ⌜s.Sane L⌝⟩⦄ := by
  mvcgen [compileToken]

@[scoped spec] theorem installPrimitive_sane (p : Primitive) :
    ⦃fun s => ⌜s.Sane L⌝⦄ installPrimitive p ⦃post⟨fun _ s => ⌜s.Sane L⌝, fun _ s => ⌜s.Sane L⌝⟩⦄ := by
  mvcgen [installPrimitive]

@[scoped spec] theorem installAll_sane (ps : List Primitive) :
    ⦃fun s => ⌜s.Sane L⌝⦄ installAll ps ⦃post⟨fun _ s => ⌜s.Sane L⌝, fun _ s => ⌜s.Sane L⌝⟩⦄ := by
  induction ps with
  | nil => mvcgen [installAll]
  | cons p ps ih =>
    have h : installAll (p :: ps) = (do installPrimitive p; installAll ps) := rfl
    rw [h]
    mvcgen [ih]

/-- The cell of the number base lies in the data space of every layout. -/
theorem inData_base : L.InData baseAddr 4 := by
  have hdict := L.dictLimit_ge
  have hlim := L.dictLimit_le
  simp only [InData, baseAddr, UInt32.reduceToNat]
  omega

end Layout

/-! ## The layout a configuration makes -/

namespace Settings

variable (st : Settings) (size : Nat)

/-- Where laying out a region of `size` bytes puts the data stack: its partition ends the
region. -/
def dataBase : UInt32 := size.toUInt32 - (stackSizes st).1.toUInt32

/-- Where the control stack goes: just below the data stack. -/
def controlBase : UInt32 := st.dataBase size - (stackSizes st).2.1.toUInt32

/-- Where the return stack goes: just below the control stack. It is the data limit. -/
def returnBase : UInt32 := st.controlBase size - (stackSizes st).2.2.toUInt32

/-- Where the dictionary ends: below the block buffers, if there is a device. -/
def dictEnd : UInt32 :=
  st.returnBase size - (if st.disk.isSome then 2 * blockSize else 0).toUInt32

/-- The cache laying out makes: with a device, two empty buffers from the dictionary's end. -/
def freshCache : Option Cache :=
  if st.disk.isSome then
    some (Cache.new ⟨st.dictEnd size, spaces blockSize, 0, .empty⟩
      ⟨st.dictEnd size + blockSize.toUInt32, spaces blockSize, 0, .empty⟩)
  else none

end Settings

/-- The layout that laying out makes of a region of `size` bytes with the configuration `st`:
the region's size, each stack's capacity in cells (two a control entry), and with a device the
block buffers between the dictionary and the data limit. -/
structure Layout.Made (L : Layout) (size : Nat) (st : Settings) : Prop where
  size : L.size = size
  retCap : L.retCap = st.returnCap.toNat
  controlCap : L.controlCap = 2 * st.controlCap.toNat
  dataCap : L.dataCap = st.dataCap.toNat
  buffers : L.dataLimit = L.dictLimit + (if st.disk.isSome then 2 * blockSize else 0)

/-- With sizes that fit 64 bits, the stacks' sizes in bytes are their capacities in cells,
four bytes a cell and two cells a control entry. -/
theorem stackSizes_of_fits {st : Settings} (h : st.SizesFit) :
    stackSizes st = (4 * st.dataCap.toNat, 8 * st.controlCap.toNat, 4 * st.returnCap.toNat) := by
  unfold Settings.SizesFit at h
  simp only [stackSizes, Prod.mk.injEq]
  refine ⟨?_, ?_, ?_⟩ <;> rw [Nat.mod_eq_of_lt (by omega)] <;> omega

namespace Layout.Made

variable {L : Layout} {size : Nat} {st : Settings}

/-- The bases that laying out computes from the region's end are the layout's: the
subtractions do not wrap. -/
theorem bases (h : L.Made size st) (hfit : st.SizesFit) :
    (st.dataBase size).toNat = L.base .data ∧ (st.controlBase size).toNat = L.base .control ∧
      (st.returnBase size).toNat = L.dataLimit ∧ (st.dictEnd size).toNat = L.dictLimit := by
  have hfill := L.fills
  have hmax := L.size_le
  have hdict := L.dictLimit_ge
  obtain ⟨hsize, hr, hc, hd, hbuf⟩ := h
  unfold maxRegion at hmax
  simp only [Settings.dictEnd, Settings.returnBase, Settings.controlBase, Settings.dataBase,
    stackSizes_of_fits hfit, Layout.base, UInt32.toNat_sub, Nat.toUInt32_eq, UInt32.toNat_ofNat']
  omega

/-- The stacks' capacities that laying out sets, as 32-bit numbers, are the layout's. -/
theorem caps (h : L.Made size st) :
    st.dataCap.toNat.toUInt32.toNat = L.dataCap ∧ st.returnCap.toNat.toUInt32.toNat = L.retCap ∧
      (st.controlCap.toNat.toUInt32 * 2).toNat = L.controlCap := by
  have hfill := L.fills
  have hmax := L.size_le
  obtain ⟨hsize, hr, hc, hd, -⟩ := h
  unfold maxRegion at hmax
  simp only [UInt32.toNat_mul, Nat.toUInt32_eq, UInt32.toNat_ofNat', UInt32.reduceToNat]
  omega

/-- With a device, laying out puts two buffers of a block each side by side between the
dictionary's end and the data limit. -/
theorem freshCache_fits (h : L.Made size st) (hfit : st.SizesFit) {c : Cache}
    (hc : st.freshCache size = some c) : L.SlotFits c.active ∧ L.SlotFits c.older := by
  have hde := (h.bases hfit).2.2.2
  have hdict := L.dictLimit_ge
  have hlim := L.dictLimit_le
  have hfill := L.fills
  have hmax := L.size_le
  unfold maxRegion at hmax
  simp only [Settings.freshCache] at hc
  split at hc
  · cases hc
    rename_i hdisk
    have hbuf := h.buffers
    simp only [hdisk, if_true] at hbuf
    -- the older buffer starts a block above the dictionary's end, with no wrap
    have hold : (st.dictEnd size + blockSize.toUInt32).toNat = L.dictLimit + blockSize := by
      rw [UInt32.toNat_add, hde, show blockSize.toUInt32.toNat = blockSize from rfl]
      unfold blockSize at hbuf ⊢
      omega
    have hsp : (spaces (spaces blockSize).size).size = blockSize := by
      simp [spaces, ByteArray.size]
    simp only [Layout.SlotFits, Cache.new, hde, hold, hsp, and_true]
    unfold blockSize at hbuf ⊢
    omega
  · cases hc

/-- A machine freshly laid out lies in the layout it was laid out for: empty stacks at the
bases of their partitions, an empty dictionary from cell 8, no open definition, and the block
buffers below the data limit, over a region of the layout's size whose first cell is zero. -/
theorem holds (h : L.Made size st) (hfit : st.SizesFit) {r : Region}
    (hsize : r.bytes.size = size) (hlow : ∀ j, j < 4 → r.byteAt j = 0) (oh ol : UInt32) :
    L.Holds ⟨st, r, dictBase, 0, st.dictEnd size, st.returnBase size, 0, oh, ol,
      .empty .data (st.dataBase size) st.dataCap.toNat.toUInt32,
      .empty .ret (st.returnBase size) st.returnCap.toNat.toUInt32,
      .empty .control (st.controlBase size) (st.controlCap.toNat.toUInt32 * 2),
      st.freshCache size⟩ := by
  obtain ⟨hds, hcs, hrs, hde⟩ := h.bases hfit
  obtain ⟨hdc, hrc, hcc⟩ := h.caps
  have hdict := L.dictLimit_ge
  exact
    { size := hsize.trans h.size.symm
      dictLimit := hde
      dataLimit := hrs
      base := fun s => by cases s <;> assumption
      cap := fun s => by cases s <;> assumption
      depth_le := fun s => by cases s <;> exact UInt32.zero_le
      here_ge := show 8 ≤ dictBase.toNat by decide
      here_le := by simp only [dictBase, UInt32.reduceToNat]; omega
      here_aligned := show dictBase.toNat % 4 = 0 by decide
      latest := .inl rfl
      opened := fun h0 => absurd rfl h0
      control_even := rfl
      fixups := fun i hi => by simp [Stack.cells_length, Stack.empty] at hi
      cache := fun _ hc => h.freshCache_fits hfit hc
      low := hlow
      fits := hfit }

/-- The region of the layout's size is a whole number of cells, so zeroing it keeps its
size. -/
theorem size_zeroed (h : L.Made size st) : (Region.zeroed size).bytes.size = size := by
  have hfill := L.fills
  have hal := L.dataLimit_aligned
  rw [Region.size_zeroed, ← h.size]
  omega

/-- The fresh buffers lie above the region's first cell, so storing them leaves it alone. -/
theorem byteAt_storeSlots (h : L.Made size st) (hfit : st.SizesFit) {c : Cache}
    (hc : st.freshCache size = some c) (r : Region) {j : Nat} (hj : j < 4) :
    ((r.storeSlot c.active).storeSlot c.older).byteAt j = r.byteAt j := by
  obtain ⟨⟨ha, -⟩, ⟨ho, -⟩⟩ := h.freshCache_fits hfit hc
  rw [Region.byteAt_storeSlot_of_not_mem _ _ _ (.inl (by omega)),
    Region.byteAt_storeSlot_of_not_mem _ _ _ (.inl (by omega))]

end Layout.Made

/-! ## Laying out -/

namespace Layout

variable (L : Layout)

/-- Laying out a region with a configuration whose sizes fit, for the layout they make, puts
the machine in that layout if it succeeds. -/
theorem layOut_sane :
    ⦃fun s => ⌜L.Made s.region.bytes.size s.settings ∧ s.settings.SizesFit⌝⦄ layOut
    ⦃post⟨fun _ s => ⌜s.Sane L⌝, fun _ _ => ⌜True⌝⟩⦄ := by
  mvcgen [layOut, checkSettings, changeRegion, takeRegion]
  all_goals first | exact fun h => h | skip
  · -- with a device, whose buffers are stored over the zeroed region
    obtain ⟨hmade, hfit⟩ := ‹L.Made _ _ ∧ Settings.SizesFit _›
    rename_i c hc _ _ _
    refine ⟨hmade.holds hfit (r := ((Region.zeroed _).storeSlot c.active).storeSlot c.older)
      ?_ ?_ _ _, L.inData_base⟩
    · rw [Region.size_storeSlot, Region.size_storeSlot, hmade.size_zeroed]
    · intro j hj
      rw [hmade.byteAt_storeSlots hfit hc _ hj, Region.byteAt_zeroed]
  · -- with no device, over the zeroed region
    obtain ⟨hmade, hfit⟩ := ‹L.Made _ _ ∧ Settings.SizesFit _›
    exact ⟨hmade.holds hfit (r := Region.zeroed _) hmade.size_zeroed
      (fun j _ => Region.byteAt_zeroed _ j) _ _, L.inData_base⟩

end Layout

/-- Configurations pass layout's check only with positive capacities. -/
theorem checkSettings_caps (st : Settings) :
    ⦃fun _ => ⌜True⌝⦄ checkSettings st
    ⦃post⟨fun _ _ => ⌜0 < st.dataCap ∧ 0 < st.returnCap ∧ 0 < st.controlCap⌝, fun _ _ => ⌜True⌝⟩⦄ := by
  mvcgen [checkSettings]
  omega

/-- Laying out fails unless the capacities are positive and the stacks, the block buffers and
the dictionary's first cells fit the region. -/
theorem layOut_fails {m : Machine} (hfit : m.settings.SizesFit)
    (h : ¬ (0 < m.settings.dataCap ∧ 0 < m.settings.returnCap ∧ 0 < m.settings.controlCap ∧
      dictBase.toNat + (if m.settings.disk.isSome then 2 * blockSize else 0) +
          4 * m.settings.returnCap.toNat + 8 * m.settings.controlCap.toNat +
          4 * m.settings.dataCap.toNat ≤ m.region.bytes.size)) :
    ∃ e t, layOut.run m = .error e t := by
  simp only [layOut, EStateM.run_bind, EStateM.run_get, EStateM.run_set]
  split
  · -- the check passed: the capacities are positive, so the sizes do not fit
    rename_i u t hc
    have htriple : ⦃fun s => ⌜s = { m with region := Region.zeroed m.region.bytes.size }⌝⦄
        checkSettings m.settings
        ⦃post⟨fun _ _ => ⌜0 < m.settings.dataCap ∧ 0 < m.settings.returnCap ∧
          0 < m.settings.controlCap⌝, fun _ _ => ⌜True⌝⟩⦄ :=
      fun s _ => checkSettings_caps m.settings s trivial
    have hcaps := Vm.run_of_triple htriple
    rw [hc] at hcaps
    obtain ⟨hd, hr, hcc⟩ := hcaps
    have hsum := hfit
    unfold Settings.SizesFit at hsum
    rw [if_pos (by simp only [stackSizes_of_fits hfit]; rw [Nat.mod_eq_of_lt (by omega)]; omega)]
    exact ⟨_, _, rfl⟩
  · exact ⟨_, _, rfl⟩

/-! ## Creating a machine -/

theorem regionSize_aligned (n : Nat) : regionSize n % 4 = 0 := by
  unfold regionSize
  omega

/-- A machine created with sizes that fit 64 bits either reports that its layout failed, or
lies in the layout its configuration makes of its region: the dictionary from cell 8 to the
block buffers, then the return, control and data stacks' partitions in that order, each
holding its capacity and the data stack's ending the region. A push on it overflows exactly
when its stack is full, and never faults on an address. -/
theorem create_laid_out (n : Nat) (st : Settings) (hfit : st.SizesFit) :
    let m := (Machine.create n st).1
    (Machine.create n st).2.isSome ∨
      ∃ L : Layout, L.Made (regionSize n) st ∧ m.Sane L ∧
        L.dataLimit < L.base .control ∧ L.base .control < L.base .data ∧
        L.base .data < L.size ∧
        ∀ s v, (push s v).run m = if (m.stack s).depth = (m.stack s).cap then
            .error (.stack ((m.stack s).err .overflow)) m
          else .ok () ({ m with region := m.region.writeAt (m.stack s).next.toNat (bytesOfCell v) }.setStack
            s (m.stack s).raise) := by
  have hsz := regionSize_le n
  have h4 := regionSize_aligned n
  have hblank : (Machine.blank n st).region.bytes.size = regionSize n := by
    simp only [Machine.blank, Region.size_zeroed]
    omega
  by_cases hok : 0 < st.dataCap ∧ 0 < st.returnCap ∧ 0 < st.controlCap ∧
      dictBase.toNat + (if st.disk.isSome then 2 * blockSize else 0) + 4 * st.returnCap.toNat +
        8 * st.controlCap.toNat + 4 * st.dataCap.toNat ≤ regionSize n
  · obtain ⟨hd, hr, hc, hroom⟩ := hok
    have hbk : (if st.disk.isSome then 2 * blockSize else 0) % 4 = 0 := by
      split <;> simp [blockSize]
    simp only [dictBase, UInt32.reduceToNat] at hroom
    -- the layout of the region: the stacks from its end down, then the block buffers
    let L : Layout :=
      { size := regionSize n
        dictLimit := regionSize n - (4 * st.returnCap.toNat + 8 * st.controlCap.toNat +
          4 * st.dataCap.toNat) - (if st.disk.isSome then 2 * blockSize else 0)
        dataLimit := regionSize n - (4 * st.returnCap.toNat + 8 * st.controlCap.toNat +
          4 * st.dataCap.toNat)
        retCap := st.returnCap.toNat
        controlCap := 2 * st.controlCap.toNat
        dataCap := st.dataCap.toNat
        size_le := hsz
        dictLimit_ge := by omega
        dictLimit_le := by omega
        dataLimit_aligned := by omega
        controlCap_even := by omega
        fills := by omega }
    have hmade : L.Made (regionSize n) st := ⟨rfl, rfl, rfl, rfl, by simp only [L]; omega⟩
    have htriple : ⦃fun s => ⌜s = Machine.blank n st⌝⦄ layOut
        ⦃post⟨fun _ s => ⌜s.Sane L⌝, fun _ _ => ⌜True⌝⟩⦄ := fun s hs => L.layOut_sane s (by
      subst hs
      show L.Made _ _ ∧ _
      rw [hblank]
      exact ⟨hmade, hfit⟩)
    have hrun := Vm.run_of_triple htriple
    dsimp only
    cases hres : layOut.run (Machine.blank n st) with
    | ok u m =>
      rw [hres] at hrun
      simp only [Machine.create, hres]
      refine .inr ⟨L, hmade, hrun, ?_, ?_, ?_, fun s v => hrun.push_run_eq s v⟩ <;>
        simp only [Layout.base, L] <;> omega
    | error e m =>
      simp only [Machine.create, hres]
      exact .inl rfl
  · obtain ⟨e, t, hres⟩ := layOut_fails (m := Machine.blank n st) hfit (by rw [hblank]; exact hok)
    simp only [Machine.create, hres]
    exact .inl rfl

/-- The default configuration's sizes fit, so a machine created with it over 64 KiB is laid
out as `create_laid_out` says, or reports an error. -/
theorem default_laid_out :
    Settings.SizesFit {} ∧
    let m := (Machine.create 65536 {}).1
    ((Machine.create 65536 {}).2.isSome ∨
      ∃ L : Layout, L.Made (regionSize 65536) {} ∧ m.Sane L ∧
        L.dataLimit < L.base .control ∧ L.base .control < L.base .data ∧
        L.base .data < L.size ∧
        ∀ s v, (push s v).run m = if (m.stack s).depth = (m.stack s).cap then
            .error (.stack ((m.stack s).err .overflow)) m
          else .ok () ({ m with region := m.region.writeAt (m.stack s).next.toNat (bytesOfCell v) }.setStack
            s (m.stack s).raise)) :=
  have hfit : Settings.SizesFit {} := by
    unfold Settings.SizesFit
    decide
  ⟨hfit, create_laid_out 65536 {} hfit⟩

end ForthMachine
