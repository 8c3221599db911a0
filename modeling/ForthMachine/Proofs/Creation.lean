import Mathlib
import ForthMachine.Proofs.Fixture

/-!
# When creating a machine succeeds

Creating a machine lays its region out and installs the builtin words, each a header and two
cells of code in the dictionary. Laying out checks the configuration and that the stacks fit;
installing a word checks that it has a name and an action, that the primitive table has room
for it, and that the dictionary does. This module shows that these checks are the only ways
creation fails.

A builtin word takes at most `builtinSpace` bytes of the dictionary: a header for the longest
name folding can give, and two cells. On a machine in its partition with that much room for
each word still to come, and a slot of the primitive table for each, every word installs
(`Machine.CanInstall.installAll_run`). The main statement is `create_succeeds`: a
configuration that passes the checks, over a region with room for the stacks and for every
word it installs, makes a machine.
-/

open Std.Do

set_option mvcgen.warning false

namespace ForthMachine

open ForthMachine.Text ForthMachine.Memory ForthMachine.Block

/-- The most dictionary space one builtin word takes: a header for a folded name of the
longest length, and two cells of code. -/
def builtinSpace : Nat := 4 * maxNameLen + 16

/-- A primitive that can be installed: it has a name and an action. -/
def Primitive.Installable (p : Primitive) : Prop := p.name ≠ [] ∧ p.action.isSome

/-- The configuration passes layout's check: positive stack capacities and a base between 2
and 36. -/
def Settings.Checked (st : Settings) : Prop :=
  0 < st.dataCap ∧ 0 < st.returnCap ∧ 0 < st.controlCap ∧ 2 ≤ st.radix ∧ st.radix ≤ 36

/-- The words laying out installs after the runtime words, in order: the compiler words, the
library, the block words with a device, and the host's own. -/
def Settings.builtins (st : Settings) : List Primitive :=
  compilerWords ++ st.library.getD builtinLibrary ++ (if st.disk.isSome then blockWords else []) ++
    st.extra

/-- The machine lies in the layout `L` and can take `n` more builtin words: there is room for
them below the dictionary's limit and in the primitive table. -/
structure Machine.CanInstall (m : Machine) (L : Layout) (n : Nat) : Prop where
  sane : m.Sane L
  room : m.here.toNat + n * builtinSpace ≤ L.dictLimit
  table : m.prims.size + n ≤ Token.maxArg.toNat + 1

namespace Machine.Sane

variable {m : Machine} {L : Layout}

/-- A cell compiled with room for it goes to `here`, which moves a cell on. -/
theorem compileCell_run (h : m.Sane L) (hk : m.here.toNat + 4 ≤ L.dictLimit) (v : UInt32) :
    ∃ m', (compileCell v).run m = .ok m.here m' ∧ m'.Sane L ∧
      m'.here.toNat = m.here.toNat + 4 ∧ m'.prims = m.prims := by
  have h4 : (alignUp 4).toNat = 4 := by decide
  have hlim := L.dictLimit_le
  have hsz := L.size_le
  have hfill := L.fills
  have hg : 8 ≤ m.here.toNat := h.here_ge
  have hal : m.here.toNat % 4 = 0 := h.here_aligned
  have hsize : m.region.bytes.size = L.size := h.size
  unfold maxRegion at hsz
  -- the allocated cell is zeroed and `here` moves past it, then the value is stored there
  have hs₁ := h.allocated (n := alignUp 4) (by rw [h4]) (by rw [h4]; exact hk)
  simp only [compileCell, EStateM.run_bind, Layout.allocate_run L h, h4,
    if_neg (show ¬ L.dictLimit < m.here.toNat + 4 by omega)]
  rw [storCell_run, Region.storCell_ok hal (by simp only [Region.size_fillAt]; omega)]
  refine ⟨_, rfl, hs₁.writeAt (i := m.here.toNat) (by omega) (by simp; omega), ?_, rfl⟩
  simp only [UInt32.toNat_add, h4]
  omega

/-- A token compiled with room for it goes to `here`, which moves a cell on. -/
theorem compileToken_run (h : m.Sane L) (hk : m.here.toNat + 4 ≤ L.dictLimit) (k : TokenKind)
    (a : UInt32) :
    ∃ m', (compileToken k a).run m = .ok m.here m' ∧ m'.Sane L ∧
      m'.here.toNat = m.here.toNat + 4 ∧ m'.prims = m.prims := by
  obtain ⟨m₁, h₁, hs₁, hh₁, hp₁⟩ := h.compileCell_run hk (Token.make k a)
  obtain ⟨t, ht⟩ := trace_run "+" (fun _ => Bytes.ofString ("@" ++ toString m.here.toNat ++ " ") ++
    m₁.tokenText m.here) m₁
  refine ⟨{ m₁ with trace := t }, ?_, hs₁, hh₁, hp₁⟩
  simp only [compileToken, EStateM.run_bind, h₁, EStateM.run_get, ht, EStateM.run_pure]

/-- A header defined with room for the longest name goes to `here`, which moves past it. -/
theorem define_run_of_room (h : m.Sane L) (hk : m.here.toNat + 4 * maxNameLen + 8 ≤ L.dictLimit)
    (name : Bytes) (flags : UInt8) :
    ∃ a m', (define name flags).run m = .ok a m' ∧ m'.Sane L ∧
      m'.here.toNat ≤ m.here.toNat + 4 * maxNameLen + 8 ∧ m'.prims = m.prims := by
  have hrun := define_run h.dictRoom name flags
  have hn := foldName_length_le m.settings.caseSensitive name
  have hd : m.dictLimit.toNat = L.dictLimit := h.dictLimit
  dsimp only at hrun
  generalize foldName m.settings.caseSensitive name = name' at hrun hn
  -- the longest folded name fits, so the dictionary is not full
  have hroom : m.here.toNat + (name'.length + 3) / 4 * 4 + 8 ≤ L.dictLimit := by
    unfold maxNameLen at hn hk
    omega
  rw [if_neg (by omega)] at hrun
  obtain ⟨tr, hrun⟩ := hrun
  refine ⟨_, m.addHeader name' flags tr, hrun, h.addHeader hn hroom, ?_, ?_⟩
  · -- the header's length is at most that of the longest name's, and `here` does not wrap
    obtain ⟨-, -, hk'⟩ := header_space hn
    have hlim := L.dictLimit_le
    have hsz := L.size_le
    have hfill := L.fills
    unfold maxRegion at hsz
    unfold maxNameLen at hn hk ⊢
    simp only [Machine.addHeader, UInt32.toNat_add, hk']
    omega
  · simp only [Machine.addHeader]

end Machine.Sane

namespace Machine.CanInstall

variable {m : Machine} {L : Layout} {n : Nat}

/-- An installable word installs on a machine with room for it, which keeps room for the
words after it. -/
theorem installPrimitive_run (h : m.CanInstall L (n + 1)) {p : Primitive} (hp : p.Installable) :
    ∃ m', (installPrimitive p).run m = .ok () m' ∧ m'.CanInstall L n := by
  obtain ⟨hs, hroom, htable⟩ := h
  obtain ⟨hname, hact⟩ := hp
  have hd : m.dictLimit.toNat = L.dictLimit := hs.dictLimit
  have hn := foldName_length_le m.settings.caseSensitive p.name
  have hA := (header_space hn).2.1
  unfold builtinSpace at hroom
  unfold maxNameLen at hn hroom
  -- with the new primitive in the table, the header and two cells of code follow
  have hs₀ : { m with prims := m.prims.push p }.Sane L := hs
  obtain ⟨a, m₁, h₁, hs₁, hh₁, hp₁⟩ :=
    hs₀.define_run_of_room (show m.here.toNat + 4 * maxNameLen + 8 ≤ L.dictLimit by
        unfold maxNameLen; omega)
      (foldName m.settings.caseSensitive p.name) (p.flags ||| flagBuiltin)
  replace hh₁ : m₁.here.toNat ≤ m.here.toNat + 132 := hh₁
  obtain ⟨m₂, h₂, hs₂, hh₂, hp₂⟩ := hs₁.compileToken_run (by omega) .prim m.prims.size.toUInt32
  obtain ⟨m₃, h₃, hs₃, hh₃, hp₃⟩ := hs₂.compileToken_run (by omega) .exit 0
  refine ⟨m₃, ?_, hs₃, ?_, ?_⟩
  · have hname' : p.name.isEmpty = false := List.isEmpty_eq_false_iff.mpr hname
    have hact' : p.action.isNone = false := by simpa [Option.isNone_iff_eq_none] using hact
    simp only [installPrimitive, EStateM.run_bind, EStateM.run_get, hname', hact',
      Bool.false_eq_true, if_false]
    rw [if_neg (by simp only [Token.maxArg, UInt32.reduceToNat] at htable ⊢; omega),
      if_neg (by simp only [headerSize, UInt32.reduceToNat, hA, hd]; omega)]
    simp only [EStateM.run_bind, EStateM.run_set, h₁, h₂, h₃, EStateM.run_pure]
  · unfold builtinSpace maxNameLen
    omega
  · rw [hp₃, hp₂, hp₁, Array.size_push]
    omega

/-- Installable words install in order on a machine with room for all of them. -/
theorem installAll_run {ps : List Primitive} (h : m.CanInstall L (ps.length + n))
    (hps : ∀ p ∈ ps, p.Installable) :
    ∃ m', (installAll ps).run m = .ok () m' ∧ m'.CanInstall L n := by
  induction ps generalizing m with
  | nil => exact ⟨m, rfl, by simpa using h⟩
  | cons p ps ih =>
    have h' : m.CanInstall L (ps.length + n + 1) := by
      simpa only [List.length_cons, Nat.add_right_comm] using h
    obtain ⟨m₁, h₁, hc₁⟩ := h'.installPrimitive_run (hps p List.mem_cons_self)
    obtain ⟨m₂, h₂, hc₂⟩ := ih hc₁ fun q hq => hps q (List.mem_cons_of_mem p hq)
    refine ⟨m₂, ?_, hc₂⟩
    have hcons : installAll (p :: ps) = (do installPrimitive p; installAll ps) := rfl
    rw [hcons, EStateM.run_bind, h₁]
    exact h₂

end Machine.CanInstall

/-- The space laying out needs, summed in 64 bits, fits the region of the layout it makes:
the dictionary's first cells, the block buffers and the stacks. -/
theorem Layout.Made.need_le {L : Layout} {size : Nat} {st : Settings} (h : L.Made size st)
    (hfit : st.SizesFit) :
    (dictBase.toNat + (if st.disk.isSome then 2 * blockSize else 0) + (stackSizes st).2.2 +
      (stackSizes st).2.1 + (stackSizes st).1) % UInt64.size ≤ size := by
  have hfill := L.fills
  have hdict := L.dictLimit_ge
  have hsum := hfit
  unfold Settings.SizesFit at hsum
  obtain ⟨hsize, hr, hc, hd, hbuf⟩ := h
  simp only [stackSizes_of_fits hfit]
  rw [Nat.mod_eq_of_lt (by omega)]
  simp only [dictBase, UInt32.reduceToNat] at hsum ⊢
  omega

/-! ## Laying out succeeds

The triples here say that an operation succeeds: their error condition is `False`. They are not
the partition's triples, which also hold of failures, so they live apart from them. -/

namespace Succeeds

variable (L : Layout)

/-- Installing words that install, with room for them and for `k` more, leaves room for the
`k`. -/
theorem installAll_succeeds (ps rest : List Primitive) :
    ⦃fun s => ⌜s.CanInstall L (ps ++ rest).length ∧ ∀ p ∈ ps ++ rest, p.Installable⌝⦄ installAll ps
    ⦃post⟨fun _ s => ⌜s.CanInstall L rest.length ∧ ∀ p ∈ rest, p.Installable⌝,
      fun _ _ => ⌜False⌝⟩⦄ :=
  Vm.triple_of_run fun s ⟨hs, hps⟩ => by
    rw [List.length_append] at hs
    obtain ⟨m', h, hc⟩ := hs.installAll_run fun p hp => hps p (List.mem_append_left rest hp)
    rw [h]
    exact ⟨hc, fun p hp => hps p (List.mem_append_right ps hp)⟩

/-- A cell stored at a cell boundary of the data space is stored, and the dictionary stays
empty. -/
theorem storCell_succeeds (a v : UInt32) :
    ⦃fun s => ⌜s.Sane L ∧ s.here = dictBase ∧ L.InData a 4 ∧ a.toNat % 4 = 0⌝⦄ storCell a v
    ⦃post⟨fun _ s => ⌜s.Sane L ∧ s.here = dictBase⌝, fun _ _ => ⌜False⌝⟩⦄ :=
  Vm.triple_of_run fun s ⟨hs, hh, ha, hal⟩ => by
    have hsize : s.region.bytes.size = L.size := hs.size
    have hfill := L.fills
    rw [storCell_run, Region.storCell_ok hal (by unfold Layout.InData at ha; omega)]
    exact ⟨hs.writeAt ha.1 (by simpa using ha.2), hh⟩

theorem trace_succeeds (mark : String) (msg : Unit → Bytes) :
    ⦃fun s => ⌜s.Sane L ∧ s.here = dictBase⌝⦄ trace mark msg
    ⦃post⟨fun _ s => ⌜s.Sane L ∧ s.here = dictBase⌝, fun _ _ => ⌜False⌝⟩⦄ :=
  Vm.triple_of_run fun s hs => by
    obtain ⟨t, h⟩ := trace_run mark msg s
    rw [h]
    exact hs

/-- The conditions under which laying out succeeds, for the layout `L` and the configuration
`st`: the region has the layout's size, which `st` makes of it; the configuration passes the
check and its sizes fit; the dictionary and the primitive table have room for every word. -/
structure Fits (L : Layout) (st : Settings) : Prop where
  made : L.Made L.size st
  sizes : st.SizesFit
  checked : st.Checked
  room : dictBase.toNat + st.builtins.length * builtinSpace ≤ L.dictLimit
  table : runtimeWords.length + st.builtins.length ≤ Token.maxArg.toNat + 1
  words : ∀ p ∈ st.builtins, p.Installable

variable {L} in
/-- A machine in its layout with an empty dictionary and only the runtime words, as laying
out leaves it before installing the rest, can take every word of a configuration that fits. -/
theorem Fits.canInstall {st : Settings} (h : Fits L st) {m : Machine} (hs : m.Sane L)
    (hh : m.here = dictBase) :
    ({ m with prims := runtimeWords.toArray } : Machine).CanInstall L st.builtins.length where
  sane := hs
  room := by
    rw [show ({ m with prims := runtimeWords.toArray } : Machine).here = dictBase from hh]
    exact h.room
  table := by simpa using h.table

/-- Laying out succeeds with a configuration that passes the check, for the layout it makes of
the region, when the dictionary has room for every word it installs. -/
theorem layOut_succeeds (st : Settings) :
    ⦃fun s => ⌜s.settings = st ∧ s.region.bytes.size = L.size ∧ Fits L st⌝⦄ layOut
    ⦃post⟨fun _ _ => ⌜True⌝, fun _ _ => ⌜False⌝⟩⦄ := by
  -- the four groups of words, each with the words still to come after it
  have i₁ := installAll_succeeds L compilerWords
    (st.library.getD builtinLibrary ++ (if st.disk.isSome then blockWords else []) ++ st.extra)
  have i₂ := fun st' : Settings => installAll_succeeds L (st'.library.getD builtinLibrary)
    ((if st.disk.isSome then blockWords else []) ++ st.extra)
  have i₃ := installAll_succeeds L blockWords st.extra
  have i₄ := fun st' : Settings => installAll_succeeds L st'.extra []
  mvcgen [layOut, checkSettings, changeRegion, takeRegion, storCell_succeeds, trace_succeeds,
    i₁, i₂, i₃, i₄]
  all_goals clear i₁ i₂ i₃ i₄
  all_goals obtain ⟨rfl, hsz, hfits⟩ := ‹_ = st ∧ _ ∧ Fits L st›
  case vc1.isTrue | vc2.isFalse.isTrue | vc3.isFalse.isFalse.isTrue |
      vc4.isFalse.isFalse.isFalse.isTrue =>
    -- the configuration passes the check
    have hchk := hfits.checked
    simp only [Settings.Checked] at hchk
    simp +zetaDelta only [Bool.or_eq_true, decide_eq_true_eq] at *
    omega
  case vc5.isFalse.isFalse.isFalse.isFalse.isTrue =>
    -- the stacks and the buffers fit the region
    have hneed := hfits.made.need_le hfits.sizes
    rw [← hsz] at hneed
    exact absurd ‹_ > _› (Nat.not_lt.mpr hneed)
  case vc7.isFalse.isFalse.isFalse.isFalse.isFalse.h_1.pre =>
    -- with a device, whose buffers are stored over the zeroed region
    have hmade := hfits.made
    rw [← hsz] at hmade
    rename_i c hc _ _ _ _
    refine ⟨hmade.holds hfits.sizes (r := ((Region.zeroed _).storeSlot c.active).storeSlot c.older)
      ?_ ?_ _ _, rfl, L.inData_base, by decide⟩
    · rw [Region.size_storeSlot, Region.size_storeSlot, hmade.size_zeroed]
    · intro j hj
      rw [hmade.byteAt_storeSlots hfits.sizes hc _ hj, Region.byteAt_zeroed]
  case vc18.isFalse.isFalse.isFalse.isFalse.isFalse.h_2.pre =>
    -- with no device, over the zeroed region
    have hmade := hfits.made
    rw [← hsz] at hmade
    exact ⟨hmade.holds hfits.sizes (r := Region.zeroed _) hmade.size_zeroed
      (fun j _ => Region.byteAt_zeroed _ j) _ _, rfl, L.inData_base, by decide⟩
  case vc10.isFalse.isFalse.isFalse.isFalse.isFalse.h_1.post.success.post.success.pre |
      vc21.isFalse.isFalse.isFalse.isFalse.isFalse.h_2.post.success.post.success.pre =>
    -- the words go to the empty dictionary, after the runtime words
    rename_i s hs _ _
    have hc := hfits.canInstall hs.1 hs.2
    have hw := hfits.words
    simp only [Settings.builtins, List.append_assoc] at hc hw ⊢
    exact ⟨hc, hw⟩
  case vc11.isFalse.isFalse.isFalse.isFalse.isFalse.h_1.post.success.post.success.post.success.pre |
      vc22.isFalse.isFalse.isFalse.isFalse.isFalse.h_2.post.success.post.success.post.success.pre =>
    rename_i hs
    simpa only [List.append_assoc] using hs
  case vc12.isFalse.isFalse.isFalse.isFalse.isFalse.h_1.post.success.post.success.post.success.post.success.isTrue.pre |
      vc23.isFalse.isFalse.isFalse.isFalse.isFalse.h_2.post.success.post.success.post.success.post.success.isTrue.pre =>
    -- with a device, the block words come next
    rename_i hdisk _ _ _ hs
    simp +zetaDelta only at hdisk
    simpa only [hdisk, if_true] using hs
  case vc13.isFalse.isFalse.isFalse.isFalse.isFalse.h_1.post.success.post.success.post.success.post.success.isTrue.post.success.pre |
      vc24.isFalse.isFalse.isFalse.isFalse.isFalse.h_2.post.success.post.success.post.success.post.success.isTrue.post.success.pre =>
    rename_i hs
    simp +zetaDelta only [List.append_nil]
    exact hs
  case vc15.isFalse.isFalse.isFalse.isFalse.isFalse.h_1.post.success.post.success.post.success.post.success.isFalse.pre |
      vc26.isFalse.isFalse.isFalse.isFalse.isFalse.h_2.post.success.post.success.post.success.post.success.isFalse.pre =>
    -- without a device, the host's words come next
    rename_i hdisk _ _ _ hs
    simp +zetaDelta only [List.append_nil] at hdisk ⊢
    simpa only [hdisk, Bool.false_eq_true, if_false, List.nil_append] using hs

end Succeeds

/-! ## Creating a machine succeeds -/

/-- The space a configuration's stacks and block buffers take at the end of the region. -/
def Settings.stackSpace (st : Settings) : Nat :=
  (if st.disk.isSome then 2 * blockSize else 0) + 4 * st.returnCap.toNat + 8 * st.controlCap.toNat +
    4 * st.dataCap.toNat

/-- Below a configuration's stack space there is room for the dictionary's first cells, and the
cells under the stacks end on a cell boundary. -/
theorem Settings.stackSpace_fits (st : Settings) {size : Nat} (h4 : size % 4 = 0)
    (hroom : dictBase.toNat + st.stackSpace ≤ size) :
    8 ≤ size - st.stackSpace ∧
      size - st.stackSpace ≤
        size - (4 * st.returnCap.toNat + 8 * st.controlCap.toNat + 4 * st.dataCap.toNat) ∧
      (size - (4 * st.returnCap.toNat + 8 * st.controlCap.toNat + 4 * st.dataCap.toNat)) % 4 = 0 ∧
      size - (4 * st.returnCap.toNat + 8 * st.controlCap.toNat + 4 * st.dataCap.toNat) +
        4 * st.returnCap.toNat + 4 * (2 * st.controlCap.toNat) + 4 * st.dataCap.toNat = size := by
  have hbase : dictBase.toNat = 8 := rfl
  unfold Settings.stackSpace at hroom ⊢
  omega

/-- The layout laying out makes of a region of `size` bytes, a whole number of cells at most
16 MiB, with the configuration `st`: its stacks from the region's end down, then the block
buffers, and the dictionary below them. -/
def Settings.layout (st : Settings) (size : Nat) (hmax : size ≤ maxRegion) (h4 : size % 4 = 0)
    (hroom : dictBase.toNat + st.stackSpace ≤ size) : Layout where
  size := size
  dictLimit := size - st.stackSpace
  dataLimit := size - (4 * st.returnCap.toNat + 8 * st.controlCap.toNat + 4 * st.dataCap.toNat)
  retCap := st.returnCap.toNat
  controlCap := 2 * st.controlCap.toNat
  dataCap := st.dataCap.toNat
  size_le := hmax
  dictLimit_ge := (st.stackSpace_fits h4 hroom).1
  dictLimit_le := (st.stackSpace_fits h4 hroom).2.1
  dataLimit_aligned := (st.stackSpace_fits h4 hroom).2.2.1
  controlCap_even := Nat.mul_mod_right 2 _
  fills := (st.stackSpace_fits h4 hroom).2.2.2

theorem Settings.layout_made (st : Settings) {size : Nat} (hmax : size ≤ maxRegion)
    (h4 : size % 4 = 0) (hroom : dictBase.toNat + st.stackSpace ≤ size) :
    (st.layout size hmax h4 hroom).Made size st where
  size := rfl
  retCap := rfl
  controlCap := rfl
  dataCap := rfl
  buffers := by
    unfold Settings.stackSpace at hroom
    simp only [Settings.layout, Settings.stackSpace]
    omega

/-- Creating a machine over `n` bytes succeeds when its configuration passes the check and its
sizes fit 64 bits, and the region has room for the stacks, the block buffers and every word it
installs. -/
theorem create_succeeds (n : Nat) (st : Settings) (hfit : st.SizesFit) (hchk : st.Checked)
    (hroom : dictBase.toNat + st.builtins.length * builtinSpace + st.stackSpace ≤ regionSize n)
    (htable : runtimeWords.length + st.builtins.length ≤ Token.maxArg.toNat + 1)
    (hwords : ∀ p ∈ st.builtins, p.Installable) :
    (Machine.create n st).2 = none := by
  have hspace : dictBase.toNat + st.stackSpace ≤ regionSize n := by omega
  let L := st.layout (regionSize n) (regionSize_le n) (regionSize_aligned n) hspace
  have hfits : Succeeds.Fits L st :=
    { made := st.layout_made (regionSize_le n) (regionSize_aligned n) hspace
      sizes := hfit
      checked := hchk
      room := by simp only [L, Settings.layout]; omega
      table := htable
      words := hwords }
  have hblank : (Machine.blank n st).region.bytes.size = L.size := by
    have := regionSize_aligned n
    simp only [Machine.blank, Region.size_zeroed, L, Settings.layout]
    omega
  have htriple : ⦃fun s => ⌜s = Machine.blank n st⌝⦄ layOut
      ⦃post⟨fun _ _ => ⌜True⌝, fun _ _ => ⌜False⌝⟩⦄ := fun s hs =>
    Succeeds.layOut_succeeds L st s (by subst hs; exact ⟨rfl, hblank, hfits⟩)
  have hrun := Vm.run_of_triple htriple
  unfold Machine.create
  split
  · rfl
  · rename_i heq
    rw [heq] at hrun
    exact hrun.elim

end ForthMachine
