import Mathlib
import ForthMachine.Proofs.FreshLayout

/-!
# Fixups come in pairs

The control stack holds the fixups of the open control structures, each as a pair of cells:
its kind, then the site of the operand cell that the closing word patches. It is pushed and
popped a pair at a time, its capacity is even, and a pair never half fits. On a machine in its
layout (`Machine.Sane`) every pending fixup whose kind is patched records a site in the data
space (`Layout.FixupsValid`).

`pushFixup_run` and `popFixup_run` say what pushing and popping a pair does on such a machine;
`pushedFixup_sane` and `poppedFixup_sane` that both keep the layout, given a pushed site in the
data space, and `popped_site` that a popped site lies there.
-/

open Std.Do

namespace ForthMachine

open ForthMachine.Text ForthMachine.Memory ForthMachine.Block

/-! ## Fixups -/

namespace Layout

variable {L : Layout}

/-- Fixups stay valid when a pair is pushed whose site lies in the data space if its kind is
patched. -/
theorem FixupsValid.push {cs : List UInt32} (h : L.FixupsValid cs) (he : cs.length % 2 = 0)
    {c site : UInt32} (hs : (Fixup.ofCode c).patched → L.InData site 4) :
    L.FixupsValid (cs ++ [c, site]) := by
  intro i hi hp
  simp only [List.length_append, List.length_cons, List.length_nil] at hi
  by_cases hlt : 2 * i + 1 < cs.length
  · rw [List.getD_append _ _ _ _ (by omega)] at hp
    rw [List.getD_append _ _ _ _ hlt]
    exact h i hlt hp
  · -- the pair just pushed
    have hi' : 2 * i = cs.length := by omega
    rw [List.getD_append_right _ _ _ _ (by omega), hi', Nat.sub_self] at hp
    rw [List.getD_append_right _ _ _ _ (by omega), hi', Nat.add_sub_cancel_left]
    exact hs hp

/-- Fixups stay valid when the stack is cut to a prefix. -/
theorem FixupsValid.take {cs : List UInt32} (h : L.FixupsValid cs) (n : Nat) :
    L.FixupsValid (cs.take n) := by
  intro i hi hp
  simp only [List.length_take] at hi
  have hget : ∀ j, j < n → (cs.take n).getD j 0 = cs.getD j 0 := fun j hj => by
    simp only [List.getD_eq_getElem?_getD, List.getElem?_take, if_pos hj]
  rw [hget _ (by omega)] at hp
  rw [hget _ (by omega)]
  exact h i (by omega) hp

/-- No fixup is pending on an empty control stack. -/
theorem fixupsValid_nil : L.FixupsValid [] := fun i hi => by simp at hi

/-- A control stack whose cells are all zero holds no fixup that will be patched: a zero kind
is none. -/
theorem fixupsValid_of_zero {cs : List UInt32} (h : ∀ x ∈ cs, x = 0) : L.FixupsValid cs := by
  intro i hi hp
  rw [List.getD_eq_getElem _ _ (by omega), h _ (List.getElem_mem _)] at hp
  exact absurd hp (by decide)

end Layout

/-! ## A machine in its partition -/

@[simp] theorem Machine.stack_data (m : Machine) : m.stack .data = m.data := rfl

@[simp] theorem Machine.stack_ret (m : Machine) : m.stack .ret = m.ret := rfl

@[simp] theorem Machine.stack_control (m : Machine) : m.stack .control = m.control := rfl

namespace Machine.Sane

variable {m : Machine} {L : Layout}

/-- The newest header, if any, ends a header's length inside the dictionary. -/
theorem latest_room (h : m.Sane L) : m.latest = 0 ∨ m.latest.toNat + 8 ≤ L.dictLimit := by
  have hle : m.here.toNat ≤ L.dictLimit := h.here_le
  have hl : m.latest = 0 ∨ m.latest.toNat + 8 ≤ m.here.toNat := h.latest
  rcases hl with h0 | hb
  · exact .inl h0
  · exact .inr (by omega)

/-- The open word, if any, is no newer than the newest header, so it too ends inside the
dictionary. -/
theorem openWord_room (h : m.Sane L) : m.openWord = 0 ∨ m.openWord.toNat + 8 ≤ L.dictLimit := by
  by_cases hw : m.openWord = 0
  · exact .inl hw
  · have hle : m.openWord.toNat ≤ m.latest.toNat := UInt32.le_iff_toNat_le.mp (h.opened hw).1
    rcases h.latest_room with h0 | hb
    · rw [h0, UInt32.toNat_zero] at hle
      exact absurd (UInt32.toNat_inj.mp (by simpa using hle)) hw
    · exact .inr (by omega)

/-- Closing the open definition keeps the partition. -/
theorem close (h : m.Sane L) : { m with openWord := 0 }.Sane L :=
  { h with opened := fun h0 => absurd rfl h0 }

/-- Abandoning the open definition restores cursors that its record keeps in the
dictionary. -/
theorem restore (h : m.Sane L) (hw : m.openWord ≠ 0) :
    { m with here := m.openHere, latest := m.openLatest, openWord := 0 }.Sane L :=
  have ho := h.opened hw
  { h with
    here_ge := ho.2.1
    here_le := ho.2.2.1
    here_aligned := ho.2.2.2.1
    latest := ho.2.2.2.2
    opened := fun h0 => absurd rfl h0 }

/-- Giving space back keeps the partition when `here` stays a whole header above the newest
header, or above the dictionary's first cells when there is none. -/
theorem giveBack (h : m.Sane L) {dec : UInt32} (hal : dec.toNat % 4 = 0) (hd : ¬ m.here < dec)
    (hf : ¬ m.here - dec < m.latest + headerSize) : { m with here := m.here - dec }.Sane L := by
  have hg : 8 ≤ m.here.toNat := h.here_ge
  have hle : m.here.toNat ≤ L.dictLimit := h.here_le
  have ha : m.here.toNat % 4 = 0 := h.here_aligned
  have hsub : (m.here - dec).toNat = m.here.toNat - dec.toNat :=
    UInt32.toNat_sub_of_le _ _ (UInt32.not_lt.mp hd)
  have hf' := UInt32.le_iff_toNat_le.mp (UInt32.not_lt.mp hf)
  -- the floor does not wrap: the newest header lies below `here`
  have h8 : (m.latest + headerSize).toNat = m.latest.toNat + 8 := by
    rw [UInt32.toNat_add]
    simp only [headerSize, UInt32.reduceToNat]
    have := m.here.toNat_lt
    have hl : m.latest = 0 ∨ m.latest.toNat + 8 ≤ m.here.toNat := h.latest
    rcases hl with h0 | hb
    · rw [h0]
      simp
    · omega
  rw [hsub, h8] at hf'
  exact h.withHere (by omega) (by omega) (by omega) (.inr (by omega))

/-- Opening a definition whose header is the newest word records the cursors of a machine in
the same layout. -/
theorem record (h : m.Sane L) {m₀ : Machine} (h₀ : m₀.Sane L) :
    { m with openWord := m.latest, openHere := m₀.here, openLatest := m₀.latest,
             compiling := true }.Sane L :=
  { h with
    opened := fun _ => ⟨UInt32.le_refl _, h₀.here_ge, h₀.here_le, h₀.here_aligned, h₀.latest⟩ }

/-- The cell `n` down from the top of a stack deeper than `n`, as the machine peeks at it. -/
theorem peek?_eq (h : m.Sane L) {st : StackName} {n : UInt32} (hn : n < (m.stack st).depth) :
    m.peek? st n = some ((m.cells st).getD ((m.stack st).depth.toNat - 1 - n.toNat) 0) := by
  simp only [Machine.peek?, Stack.slot_eq _ hn, (h.stack_fits st).loadCell_slotAddr hn,
    Machine.cells_def, Stack.getD_cells _ _ hn]

/-- The kind of the innermost fixup is read from the cell below the top of the control
stack. -/
theorem topFixup_eq (h : m.Sane L) (hd : 2 ≤ m.control.depth.toNat) :
    m.topFixup = Fixup.ofCode ((m.cells .control).getD (m.control.depth.toNat - 2) 0) := by
  have h1 : (1 : UInt32) < (m.stack .control).depth :=
    UInt32.lt_iff_toNat_lt.mpr (by simp; omega)
  simp only [Machine.topFixup, h.peek?_eq h1]
  rfl

/-- The control stack's depth and capacity are even, so a stack with room for a cell has room
for a pair. -/
theorem control_room (h : m.Sane L) (hd : m.control.depth ≠ m.control.cap) :
    m.control.depth.toNat + 2 ≤ m.control.cap.toNat := by
  have he : m.control.depth.toNat % 2 = 0 := h.control_even
  have hc : m.control.cap.toNat = L.controlCap := h.cap .control
  have hce := L.controlCap_even
  have hle : m.control.depth.toNat ≤ m.control.cap.toNat :=
    UInt32.le_iff_toNat_le.mp (h.stack_fits .control).depth_le
  have hne : m.control.depth.toNat ≠ m.control.cap.toNat := fun e => hd (UInt32.toNat_inj.mp e)
  omega

end Machine.Sane

/-- A stack with room left, raised over the cell written above its top, still fits. -/
theorem Stack.Fits.raise {s : Stack} {r : Region} (h : s.Fits r) (hd : s.depth < s.cap)
    (v : UInt32) : s.raise.Fits (r.writeAt s.next.toNat (bytesOfCell v)) where
  depth_le := by
    have hd' := UInt32.lt_iff_toNat_lt.mp hd
    apply UInt32.le_iff_toNat_le.mpr
    simp only [Stack.raise, UInt32.toNat_add, UInt32.reduceToNat]
    have := s.cap.toNat_lt
    omega
  ends := by rw [Region.size_writeAt]; exact h.ends
  size_le := by rw [Region.size_writeAt]; exact h.size_le
  aligned := h.aligned

/-! ## The control stack -/

namespace Machine.Sane

variable {m : Machine} {L : Layout}

/-- A control stack with room for a cell has room for the first cell of a pair... -/
theorem control_lt (h : m.Sane L) (hd : m.control.depth ≠ m.control.cap) :
    m.control.depth < m.control.cap :=
  UInt32.lt_iff_toNat_lt.mpr (by have := h.control_room hd; omega)

/-- ...and, raised over it, for the second. -/
theorem raise_lt (h : m.Sane L) (hd : m.control.depth ≠ m.control.cap) :
    m.control.raise.depth < m.control.raise.cap := UInt32.lt_iff_toNat_lt.mpr (by
  have hr := h.control_room hd
  simp only [Stack.raise, UInt32.toNat_add, UInt32.reduceToNat]
  have := m.control.cap.toNat_lt
  omega)

/-- The control stack after a fixup is pushed: its kind and its site written above the top. -/
def pushedFixup (m : Machine) (c site : UInt32) : Machine :=
  { m with region := ((m.region.writeAt m.control.next.toNat (bytesOfCell c)).writeAt
      m.control.raise.next.toNat (bytesOfCell site)) }.setStack .control m.control.raise.raise

/-- Pushing a fixup overflows when the control stack is full, and otherwise writes the pair
above its top. -/
theorem pushFixup_run (h : m.Sane L) (k : Fixup) (site : UInt32) :
    (pushFixup k site).run m = if m.control.depth = m.control.cap then
        .error (.stack (m.control.err .overflow)) m
      else .ok () (pushedFixup m k.code site) := by
  have hpush : (ForthMachine.push .control k.code).run m =
      if m.control.depth = m.control.cap then .error (.stack (m.control.err .overflow)) m
      else .ok () ({ m with region := (m.region.writeAt m.control.next.toNat
        (bytesOfCell k.code)) }.setStack .control m.control.raise) :=
    h.push_run_eq .control k.code
  by_cases hd : m.control.depth = m.control.cap
  · rw [if_pos hd] at hpush
    simp only [pushFixup, EStateM.run_bind, hpush, if_pos hd]
  · have hf : m.control.Fits m.region := h.stack_fits .control
    have hf₁ := hf.raise (h.control_lt hd) k.code
    have hd₁ := h.raise_lt hd
    rw [if_neg hd] at hpush
    simp only [pushFixup, EStateM.run_bind, hpush, if_neg hd, push_run, Machine.stack_setStack_self,
      Machine.region_setStack]
    rw [if_neg (by simpa [Stack.full] using hd₁), hf₁.storCell_next hd₁]
    rfl

/-- The pushed pair lands above the control stack's live cells: every byte below them is
kept. -/
theorem pushedFixup_byteAt (h : m.Sane L) (hd : m.control.depth ≠ m.control.cap)
    (c site : UInt32) {j : Nat} (hj : j < m.control.next.toNat) :
    (pushedFixup m c site).region.byteAt j = m.region.byteAt j := by
  have hf : m.control.Fits m.region := h.stack_fits .control
  have hn := hf.next_toNat
  have hn₁ := (hf.raise (h.control_lt hd) c).next_toNat
  have hlt : m.control.depth.toNat < m.control.cap.toNat := h.control_lt hd
  have := m.control.cap.toNat_lt
  simp only [Stack.raise, UInt32.toNat_add, UInt32.reduceToNat] at hn₁
  simp only [pushedFixup, Machine.region_setStack]
  rw [Region.byteAt_writeAt_of_not_mem _ _ _ _ (.inl (by simp only [Stack.raise]; omega)),
    Region.byteAt_writeAt_of_not_mem _ _ _ _ (.inl hj)]

/-- The pushed pair's kind and site are the control stack's top cells. -/
theorem pushedFixup_cells (h : m.Sane L) (hd : m.control.depth ≠ m.control.cap)
    (c site : UInt32) :
    (pushedFixup m c site).cells .control = m.cells .control ++ [c, site] := by
  have hf : m.control.Fits m.region := h.stack_fits .control
  show m.control.raise.raise.cells ((m.region.writeAt m.control.next.toNat
      (bytesOfCell c)).writeAt m.control.raise.next.toNat (bytesOfCell site)) =
      m.control.cells m.region ++ [c, site]
  rw [(hf.raise (h.control_lt hd) c).cells_raise_writeAt (h.raise_lt hd),
    hf.cells_raise_writeAt (h.control_lt hd)]
  simp

/-- A pushed fixup keeps the partition when its site lies in the data space if its kind is
patched. -/
theorem pushedFixup_sane (h : m.Sane L) (hd : m.control.depth ≠ m.control.cap) {c site : UInt32}
    (hs : (Fixup.ofCode c).patched → L.InData site 4) : (pushedFixup m c site).Sane L := by
  have hf : m.control.Fits m.region := h.stack_fits .control
  have hf₁ := hf.raise (h.control_lt hd) c
  have hd₁ := h.raise_lt hd
  have hb : m.control.base.toNat = L.base .control := h.base .control
  have hlim := L.dataLimit_le_base .control
  have hdict := L.dictLimit_ge
  have hdl := L.dictLimit_le
  -- the two writes land above the control stack's live cells, far above the first cell
  have hmiss := fun j (hj : j < m.control.next.toNat) => h.pushedFixup_byteAt hd c site hj
  have hn := hf.next_toNat
  have hold : m.control.cells (pushedFixup m c site).region = m.control.cells m.region :=
    hf.cells_congr (by simp [pushedFixup]) fun j _ hj => hmiss j (by omega)
  have hlow : ∀ j, j < 4 → (pushedFixup m c site).region.byteAt j = m.region.byteAt j :=
    fun j hj => hmiss j (by omega)
  refine (h.of_region (by simp [pushedFixup]) hlow hold).setStack rfl rfl
    (hf₁.raise hd₁ site).depth_le fun _ => ⟨?_, ?_⟩
  · simp only [Stack.raise, UInt32.toNat_add, UInt32.reduceToNat]
    have := m.control.cap.toNat_lt
    have he : m.control.depth.toNat % 2 = 0 := h.control_even
    omega
  · show L.FixupsValid ((pushedFixup m c site).cells .control)
    rw [h.pushedFixup_cells hd]
    exact h.fixups.push (by rw [Stack.cells_length]; exact h.control_even) hs

/-- The control stack after its innermost fixup is popped. -/
def poppedFixup (m : Machine) : Machine :=
  m.setStack .control { m.control with depth := m.control.depth - 2 }

/-- Popping a wanted fixup off a control stack that holds one returns its site, the cell on
top, and lowers the stack by the pair. -/
theorem popFixup_run (h : m.Sane L) {want : List Fixup} (hw : want.contains m.topFixup)
    (hd : 2 ≤ m.control.depth.toNat) :
    (popFixup want).run m = .ok ((m.cells .control).getD (m.control.depth.toNat - 1) 0)
      (poppedFixup m) := by
  have hpos : 0 < (m.stack .control).depth := UInt32.lt_iff_toNat_lt.mpr (by simp; omega)
  have hs1 : (m.control.depth - 1).toNat = m.control.depth.toNat - 1 :=
    UInt32.toNat_sub_of_le _ _ (UInt32.le_iff_toNat_le.mpr (by simp; omega))
  have h1 : (1 : UInt32) ≤ m.control.depth - 1 := UInt32.le_iff_toNat_le.mpr (by simp; omega)
  have h2 : m.control.depth - 1 - 1 = m.control.depth - 2 := UInt32.toNat_inj.mp (by
    rw [UInt32.toNat_sub_of_le _ _ h1, hs1,
      UInt32.toNat_sub_of_le _ _ (UInt32.le_iff_toNat_le.mpr (by simp; omega))]
    simp
    omega)
  simp only [popFixup, EStateM.run_bind, EStateM.run_get, if_pos hw, h.pop_run_of_pos hpos,
    dropCells_run, Machine.setStack, Machine.stack_control]
  simp only [h1, ↓reduceIte, EStateM.run_pure, poppedFixup, Machine.setStack, h2]

/-- Popping a fixup keeps the partition: the pairs below it stay as they were. -/
theorem poppedFixup_sane (h : m.Sane L) (hd : 2 ≤ m.control.depth.toNat) :
    (poppedFixup m).Sane L := by
  have h2 : (2 : UInt32) ≤ m.control.depth := UInt32.le_iff_toNat_le.mpr (by simp; omega)
  have hd2 : (m.control.depth - 2).toNat = m.control.depth.toNat - 2 := by
    rw [UInt32.toNat_sub_of_le _ _ h2]
    simp
  refine h.setStack rfl rfl (Machine.Sane.depth_sub_le _ h2 (h.stack_fits .control).depth_le)
    fun _ => ⟨?_, ?_⟩
  · have he : m.control.depth.toNat % 2 = 0 := h.control_even
    show (m.control.depth - 2).toNat % 2 = 0
    omega
  · show L.FixupsValid ({ m.control with depth := m.control.depth - 2 }.cells m.region)
    rw [Stack.cells_lower _ _ h2]
    exact h.fixups.take _

/-- The site a popped fixup hands back lies in the data space when its kind is patched. -/
theorem popped_site (h : m.Sane L) {want : List Fixup} (hw : want.contains m.topFixup)
    (hd : 2 ≤ m.control.depth.toNat) (hp : ∀ k ∈ want, k.patched) :
    L.InData ((m.cells .control).getD (m.control.depth.toNat - 1) 0) 4 := by
  have hk := hp _ (List.contains_iff_mem.mp hw)
  rw [h.topFixup_eq hd] at hk
  have he : m.control.depth.toNat % 2 = 0 := h.control_even
  have hlen : (m.control.cells m.region).length = m.control.depth.toNat := Stack.cells_length _ _
  have hv := h.fixups ((m.control.depth.toNat - 2) / 2) (by simp only [Machine.shape]; omega)
  simp only [Machine.shape, show 2 * ((m.control.depth.toNat - 2) / 2) = m.control.depth.toNat - 2
    by omega, show m.control.depth.toNat - 2 + 1 = m.control.depth.toNat - 1 by omega] at hv
  exact hv hk

end Machine.Sane

end ForthMachine
