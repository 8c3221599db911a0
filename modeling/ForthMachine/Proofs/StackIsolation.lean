import Mathlib
import ForthMachine.Proofs.PartitionWords

/-!
# The stacks stay isolated

A machine created with sizes that fit 64 bits lies in the layout its configuration makes
(`Machine.Sane`): its cursors inside the dictionary, each stack in its own partition above the
data limit and no deeper than its capacity, every pending fixup and both block buffers inside
the data space. Every word keeps that layout (`PartitionWords`); so do the recovery from a
fault, which abandons the open definition and empties stacks, and `reset`, which lays the
machine out again with the configuration and the region it was created with.

The main statement is `sessions_keep_stacks_apart`: on every machine a session reaches from a
creation with sizes that fit, the cursors and stacks lie where the layout puts them, and the
stacks behave as lists: a push or a pop acts on its own stack's cells as the list operation does
and leaves the other stacks' cells alone, and a write below the data limit leaves every stack's
cells as they were.
-/

open Std.Do

set_option mvcgen.warning false

namespace ForthMachine

open ForthMachine.Text ForthMachine.Memory ForthMachine.Block

/-! ## Laying out again

`reset` zeroes the region and lays it out afresh. With the configuration and the region the
machine was created with, that is the layout it already lies in; and when the configuration
fails its check, the machine keeps its cursors and stacks over a zeroed region, where every
cell reads as zero and no fixup is pending. -/

/-- Every cell of a stack over a zeroed region reads as zero. -/
theorem Stack.cells_zeroed (s : Stack) (n : Nat) : ∀ x ∈ s.cells (Region.zeroed n), x = 0 := by
  intro x hx
  simp only [Stack.cells, List.mem_map] at hx
  obtain ⟨a, -, rfl⟩ := hx
  simp only [Region.loadCell, Region.byteAt_zeroed]
  cases (Region.zeroed n).checkCell a .load <;> rfl

namespace Machine.Sane

variable {m : Machine} {L : Layout}

/-- Zeroing the region keeps the partition. -/
theorem zeroed (h : m.Sane L) : { m with region := Region.zeroed m.region.bytes.size }.Sane L :=
  have hs : m.region.bytes.size = L.size := h.size
  have hfill := L.fills
  have hal := L.dataLimit_aligned
  { h with
    size := by
      show (Region.zeroed m.region.bytes.size).bytes.size = L.size
      rw [Region.size_zeroed]
      omega
    fixups := Layout.fixupsValid_of_zero (Stack.cells_zeroed _ _)
    low := fun j _ => Region.byteAt_zeroed _ j }

/-- Emptying a stack keeps the partition. -/
theorem clear (h : m.Sane L) (st : StackName) : (m.setStack st (m.stack st).clear).Sane L :=
  h.setStack rfl rfl UInt32.zero_le fun _ => ⟨rfl, by
    simp only [Stack.cells, Stack.addresses, Stack.clear, UInt32.toNat_zero, List.range_zero,
      List.map_nil]
    exact Layout.fixupsValid_nil⟩

/-- Recovering from a fault keeps the partition: the open definition is closed or abandoned,
and the stacks it clears are emptied. -/
theorem recover (h : m.Sane L) (e : MachineError) : (m.recover e).1.Sane L := by
  obtain ⟨t, ht⟩ := m.recover_state e
  rw [ht]
  have hc : { m with
      here := if m.openWord = 0 then m.here else m.openHere
      latest := if m.openWord = 0 then m.latest else m.openLatest
      openWord := 0 }.Sane L := by
    by_cases hw : m.openWord = 0
    · simp only [hw, ↓reduceIte]
      exact h.close
    · simp only [hw, ↓reduceIte]
      exact h.restore hw
  have hs := (hc.clear .ret).clear .control
  by_cases hk : e.isCompileError m.compiling
  · simp only [hk]
    exact hs
  · simp only [hk]
    exact hs.clear .data

end Machine.Sane

namespace Layout

variable (L : Layout)

/-- Laying out a machine again, with the configuration and the region size of its layout,
keeps it in that layout, whether it succeeds or not. -/
theorem layOut_kept :
    ⦃fun s => ⌜s.Sane L ∧ L.Made s.region.bytes.size s.settings⌝⦄ layOut
    ⦃post⟨fun _ s => ⌜s.Sane L⌝, fun _ s => ⌜s.Sane L⌝⟩⦄ := by
  mvcgen [layOut, checkSettings, changeRegion, takeRegion]
  -- a configuration that fails its checks leaves the machine over its zeroed region
  all_goals first | exact Machine.Sane.zeroed (‹_ ∧ L.Made _ _›).1 | skip
  · -- with a device, whose buffers are stored over the zeroed region
    obtain ⟨hs, hmade⟩ := ‹_ ∧ L.Made _ _›
    rename_i c hc _ _ _
    refine ⟨hmade.holds hs.fits (r := ((Region.zeroed _).storeSlot c.active).storeSlot c.older)
      ?_ ?_ _ _, L.inData_base⟩
    · rw [Region.size_storeSlot, Region.size_storeSlot, hmade.size_zeroed]
    · intro j hj
      rw [hmade.byteAt_storeSlots hs.fits hc _ hj, Region.byteAt_zeroed]
  · -- with no device, over the zeroed region
    obtain ⟨hs, hmade⟩ := ‹_ ∧ L.Made _ _›
    exact ⟨hmade.holds hs.fits (r := Region.zeroed _) hmade.size_zeroed
      (fun j _ => Region.byteAt_zeroed _ j) _ _, L.inData_base⟩

end Layout

/-! ## Lines, host calls and sessions -/

/-- Two properties that an operation keeps, each whether it succeeds or fails, are kept
together. -/
theorem Vm.triple_and {α : Type} {x : Vm α} {P R : Machine → Prop}
    (hp : ⦃fun s => ⌜P s⌝⦄ x ⦃post⟨fun _ s => ⌜P s⌝, fun _ s => ⌜P s⌝⟩⦄)
    (hr : ⦃fun s => ⌜R s⌝⦄ x ⦃post⟨fun _ s => ⌜R s⌝, fun _ s => ⌜R s⌝⟩⦄) :
    ⦃fun s => ⌜P s ∧ R s⌝⦄ x ⦃post⟨fun _ s => ⌜P s ∧ R s⌝, fun _ s => ⌜P s ∧ R s⌝⟩⦄ :=
  Vm.triple_of_run fun s ⟨hps, hrs⟩ => by
    have h₁ := EStateM.of_wp_run_eq rfl (fun res => P (Vm.ended res)) fun _ => hp s hps
    have h₂ := EStateM.of_wp_run_eq rfl (fun res => R (Vm.ended res)) fun _ => hr s hrs
    cases hx : x.run s <;> rw [hx] at h₁ h₂ <;> exact ⟨h₁, h₂⟩

/-- A machine with a fixture's configuration and region size is laid out as the fixture's. -/
theorem Fixture.Holds.made {g : Fixture} {m : Machine} {L : Layout} (h : g.Holds m)
    (hg : L.Made g.size g.settings) : L.Made m.region.bytes.size m.settings := by
  obtain ⟨hf, -⟩ := h
  subst hf
  exact hg

namespace Layout

variable (L : Layout)

/-- Writing the buffers back and laying the machine out again keeps it in its layout, when it
still has the configuration and the region size it was laid out with. -/
theorem reset_kept {g : Fixture} (hg : L.Made g.size g.settings) :
    ⦃fun s => ⌜s.Sane L ∧ g.Holds s⌝⦄ reset ⦃post⟨fun _ s => ⌜s.Sane L⌝, fun _ s => ⌜s.Sane L⌝⟩⦄ := by
  have hflush : ⦃fun s => ⌜s.Sane L ∧ g.Holds s⌝⦄ withCache Cache.flush
      ⦃post⟨fun _ s => ⌜s.Sane L ∧ g.Holds s⌝, fun _ s => ⌜s.Sane L ∧ g.Holds s⌝⟩⦄ :=
    Vm.triple_and (L.withCache_sane flush_fits) (Fixture.withCache_fixed g Cache.flush)
  have hlay : ⦃fun s => ⌜s.Sane L ∧ g.Holds s⌝⦄ layOut
      ⦃post⟨fun _ s => ⌜s.Sane L⌝, fun _ s => ⌜s.Sane L⌝⟩⦄ :=
    fun s ⟨hs, hgs⟩ => L.layOut_kept s ⟨hs, hgs.made hg⟩
  mvcgen [reset, hflush, hlay]
  -- a flush that fails ends the reset on the machine it leaves
  exact fun hs _ => hs

end Layout

namespace Machine.Sane

variable {m : Machine} {L : Layout}

/-- A line keeps the partition, whether it faults or not. -/
theorem processLineWithin (h : m.Sane L) (limit : StepLimit) (line : Bytes) :
    (m.processLineWithin limit line).1.Sane L := by
  have hs : (m.lineStart line).Sane L := by
    obtain ⟨t, ht⟩ := Machine.note_eq { m with line := line, rest := line, token := [], steps := 0 }
      "<" (quote line)
    rw [Machine.lineStart, ht]
    exact h
  have hrun := L.sane_run (L.interpret_sane limit (line.length + 1)) hs
  simp only [Machine.processLineWithin, Machine.lineStart_def]
  split
  · rename_i hok
    rw [hok] at hrun
    split <;> exact hrun
  · rename_i e mf herr
    rw [herr] at hrun
    -- the trace notes around the recovery leave the partition alone
    obtain ⟨t₁, ht₁⟩ := mf.noteAbort_eq e
    have ha : (mf.noteAbort e).Sane L := by
      rw [ht₁]
      exact hrun
    obtain ⟨t₂, ht₂⟩ := ((mf.noteAbort e).recover e).1.noteFlushFailure_eq
    rw [ht₂]
    exact ha.recover e

/-- Every host call keeps the partition, whatever it answers, on a machine that keeps the
configuration and the region size of its layout. -/
theorem perform (h : m.Sane L) {g : Fixture} (hg : g.Holds m) (hm : L.Made g.size g.settings)
    (c : HostCall) : (m.perform c).Sane L := by
  cases c with
  | line bs => exact h.processLineWithin _ bs
  | reset => exact L.sane_run (L.reset_kept hm) ⟨h, hg⟩
  | push v => exact L.sane_run (L.push_sane .data v) ⟨h, by decide⟩
  | pop => exact L.sane_run (L.pop_sane .data) ⟨h, by decide⟩
  | peek n => exact L.sane_run (L.peekCell_sane n) h
  | load a => exact L.sane_run (L.loadData_sane a) h
  | store a v => exact L.sane_run (L.storData_sane a v) h
  | flush => exact L.sane_run L.flushOutput_sane h

/-- A session keeps the partition, call after call. -/
theorem performAll (h : m.Sane L) {g : Fixture} (hg : g.Holds m) (hm : L.Made g.size g.settings)
    (calls : List HostCall) : (m.performAll calls).Sane L := by
  induction calls generalizing m with
  | nil => exact h
  | cons c calls ih => exact ih (h.perform hg hm c) (hg.perform c)

end Machine.Sane

/-- A creation with sizes that fit either reports an error, or leaves the machine in the
layout its configuration makes of its region. -/
theorem Machine.create_sane (n : Nat) (st : Settings) (hfit : st.SizesFit) :
    (Machine.create n st).2.isSome ∨
      ∃ L : Layout, L.Made (regionSize n) st ∧ (Machine.create n st).1.Sane L := by
  have hblank : (Machine.blank n st).region.bytes.size = regionSize n := by
    have := regionSize_aligned n
    simp only [Machine.blank, Region.size_zeroed]
    omega
  unfold Machine.create
  split
  · rename_i m heq
    -- the layout succeeded, so the stacks and the buffers fit the region
    have hroom : dictBase.toNat + st.stackSpace ≤ regionSize n := by
      by_contra hno
      obtain ⟨e, t, hres⟩ := layOut_fails (m := Machine.blank n st) hfit (by
        rw [hblank]
        rintro ⟨-, -, -, hle⟩
        unfold Settings.stackSpace at hno
        by_cases hd : st.disk.isSome <;> simp only [Machine.blank, hd] at hle hno <;> omega)
      rw [hres] at heq
      cases heq
    let L := st.layout (regionSize n) (regionSize_le n) (regionSize_aligned n) hroom
    have hmade : L.Made (regionSize n) st := st.layout_made _ _ hroom
    have htriple : ⦃fun s => ⌜s = Machine.blank n st⌝⦄ layOut
        ⦃post⟨fun _ s => ⌜s.Sane L⌝, fun _ _ => ⌜True⌝⟩⦄ := fun s hs => L.layOut_sane s (by
      subst hs
      show L.Made _ _ ∧ _
      rw [hblank]
      exact ⟨hmade, hfit⟩)
    have hrun := Vm.run_of_triple htriple
    rw [heq] at hrun
    exact .inr ⟨L, hmade, hrun⟩
  · exact .inl rfl

/-- With sizes that fit 64 bits, creating a machine either reports an error, or lays it out so
that every machine a session of host calls reaches lies in the layout: the dictionary's cursors
stay between cell 8 and the dictionary's limit on cell boundaries, the newest header below
`here`, each stack within its capacity in its own partition above the data limit. So a push
or a pop changes its own stack as on a list and no other stack, and no write below the data
limit changes any stack. -/
theorem sessions_keep_stacks_apart (n : Nat) (st : Settings) (hfit : st.SizesFit) :
    (Machine.create n st).2.isSome ∨ ∃ L : Layout, L.Made (regionSize n) st ∧
      ∀ calls : List HostCall, let m := (Machine.create n st).1.performAll calls
        m.Sane L ∧
        (∀ s v m', (push s v).run m = .ok () m' →
          m'.cells s = m.cells s ++ [v] ∧ ∀ s', s' ≠ s → m'.cells s' = m.cells s') ∧
        (∀ s v m', (pop s).run m = .ok v m' →
          m.cells s = m'.cells s ++ [v] ∧ ∀ s', s' ≠ s → m'.cells s' = m.cells s') ∧
        ∀ r : Region, r.bytes.size = m.region.bytes.size →
          (∀ j, L.dataLimit ≤ j → r.byteAt j = m.region.byteAt j) →
          ∀ s, (m.stack s).cells r = m.cells s := by
  rcases Machine.create_sane n st hfit with h | ⟨L, hmade, hs⟩
  · exact .inl h
  · refine .inr ⟨L, hmade, fun calls => ?_⟩
    have hm := hs.performAll (Fixture.holds_create n st) hmade calls
    exact ⟨hm, fun _ _ _ hr => hm.cells_push hr, fun _ _ _ hr => hm.cells_pop hr,
      fun _ hsz hb s => hm.cells_of_dataWrite hsz hb s⟩

end ForthMachine
