import Mathlib
import ForthMachine.Proofs.Fixture
import ForthMachine.Proofs.DefinedName

/-!
# Block buffers keep a block's size

A cache's two buffers are read from the region before every block operation and stored back
after it. Every buffer holds exactly a block's bytes (`Machine.BuffersFull`): the layout makes
them of spaces, reading a block keeps a buffer's size on either device, and a slot is read from
the region at a block's size or kept. One triple for each operation keeps the property (scoped
in `Buffers`), and so does every session from a creation (`Machine.BuffersFull.performAll`).

This is what makes a failed flush harmless. A flush keeps each buffer in its place with the
bytes it had (`Placement.flush_places`), and storing back a full buffer just read from the region
writes the region's own bytes, or nothing where the block runs past the end
(`Machine.storeSlot_loadSlot`). So a write-back that fails changes the cache and the device and
nothing else (`withCache_flush_error`).
-/

open Std.Do

set_option mvcgen.warning false

namespace ForthMachine.Block

/-- A block buffer of a block's size. -/
def Slot.Full (s : Slot) : Prop := s.buf.size = blockSize

/-- Both buffers of a cache are of a block's size. -/
def Cache.Full (c : Cache) : Prop := c.active.Full ∧ c.older.Full

@[simp] theorem size_spaces (n : Nat) : (spaces n).size = n := by
  simp [spaces, ByteArray.size]

@[simp] theorem size_padded (data : ByteArray) (n : Nat) : (padded data n).size = n := by
  simp only [padded, ByteArray.size_append, ByteArray.size_extract, size_spaces]
  omega

/-- Reading a block into a buffer keeps the buffer's size, on either device, whether the read
fails or not. -/
theorem Disk.size_readBlock (d : Disk) (idx : UInt16) (buf : ByteArray) :
    (BlockDevice.readBlock d idx buf).2.1.size = buf.size := by
  cases d with
  | memory m =>
    simp only [BlockDevice.readBlock, MemoryDisk.read]
    split <;> simp
  | directory d =>
    simp only [BlockDevice.readBlock, DirectoryDisk.read]
    split
    · simp
    · split <;> simp

/-- Writing a slot back changes only its state. -/
theorem writeBack_slot {δ : Type} [BlockDevice δ] {d d' : δ} {s s' : Slot}
    (h : writeBack d s = (d', .ok s')) : s'.addr = s.addr ∧ s'.buf = s.buf := by
  unfold writeBack at h
  split at h
  · cases h
    exact ⟨rfl, rfl⟩
  · split at h <;> cases h
    exact ⟨rfl, rfl⟩


theorem Slot.Full.of_size {s s' : Slot} (h : s.Full) (hb : s'.buf.size = s.buf.size) :
    s'.Full := hb.trans h

theorem Cache.Full.swap {c : Cache} (h : c.Full) : (⟨c.older, c.active⟩ : Cache).Full :=
  ⟨h.2, h.1⟩

theorem Cache.Full.update {c : Cache} (h : c.Full) : c.update.Full := by
  unfold Cache.update
  split <;> exact h

theorem Cache.Full.emptyBuffers {c : Cache} (h : c.Full) : c.emptyBuffers.Full := h

/-- A fresh cache is full when the slots it is made from are. -/
theorem Cache.full_new {a b : Slot} (ha : a.Full) (hb : b.Full) : (Cache.new a b).Full :=
  ⟨ha.of_size (size_spaces _), hb.of_size (size_spaces _)⟩

/-- Where a slot's buffer belongs in the region, and the bytes it holds. -/
def Slot.place (s : Slot) : UInt32 × ByteArray := (s.addr, s.buf)

/-- Where both buffers belong, and the bytes they hold. -/
def Cache.places (c : Cache) : (UInt32 × ByteArray) × (UInt32 × ByteArray) :=
  (c.active.place, c.older.place)

theorem writeBack_place {δ : Type} [BlockDevice δ] {d d' : δ} {s s' : Slot}
    (h : writeBack d s = (d', .ok s')) : s'.place = s.place := by
  obtain ⟨ha, hb⟩ := writeBack_slot h
  simp only [Slot.place, ha, hb]

end ForthMachine.Block

namespace ForthMachine.Buffers

open ForthMachine.Block

@[scoped spec] theorem writeBackActive_full :
    ⦃fun st => ⌜st.1.Full⌝⦄ (writeBackActive : CacheM Disk Unit)
    ⦃post⟨fun _ st => ⌜st.1.Full⌝, fun _ st => ⌜st.1.Full⌝⟩⦄ := by
  mvcgen [writeBackActive]
  rename_i hs _ _ _ _ hw
  exact ⟨hs.1.of_size (by rw [(writeBack_slot hw).2]), hs.2⟩

@[scoped spec] theorem writeBackOlder_full :
    ⦃fun st => ⌜st.1.Full⌝⦄ (writeBackOlder : CacheM Disk Unit)
    ⦃post⟨fun _ st => ⌜st.1.Full⌝, fun _ st => ⌜st.1.Full⌝⟩⦄ := by
  mvcgen [writeBackOlder]
  rename_i hs _ _ _ _ hw
  exact ⟨hs.1, hs.2.of_size (by rw [(writeBack_slot hw).2])⟩

@[scoped spec] theorem makeSpaceFor_full (idx : UInt16) :
    ⦃fun st => ⌜st.1.Full⌝⦄ (makeSpaceFor idx : CacheM Disk Bool)
    ⦃post⟨fun _ st => ⌜st.1.Full⌝, fun _ st => ⌜st.1.Full⌝⟩⦄ := by
  mvcgen [makeSpaceFor, modifyCache]
  all_goals exact Cache.Full.swap ‹_›

/-- Reading a block fills the active buffer to its own size. -/
@[scoped spec] theorem block_full (idx : UInt16) :
    ⦃fun st => ⌜st.1.Full⌝⦄ (Cache.block idx : CacheM Disk UInt32)
    ⦃post⟨fun _ st => ⌜st.1.Full⌝, fun _ st => ⌜st.1.Full⌝⟩⦄ := by
  mvcgen [Cache.block]
  all_goals
    obtain ⟨ha, ho⟩ := ‹Cache.Full _›
    exact ⟨ha.of_size (Disk.size_readBlock _ _ _), ho⟩

@[scoped spec] theorem buffer_full (idx : UInt16) :
    ⦃fun st => ⌜st.1.Full⌝⦄ (Cache.buffer idx : CacheM Disk UInt32)
    ⦃post⟨fun _ st => ⌜st.1.Full⌝, fun _ st => ⌜st.1.Full⌝⟩⦄ := by
  mvcgen [Cache.buffer, modifyCache]

@[scoped spec] theorem flush_full :
    ⦃fun st => ⌜st.1.Full⌝⦄ (Cache.flush : CacheM Disk Unit)
    ⦃post⟨fun _ st => ⌜st.1.Full⌝, fun _ st => ⌜st.1.Full⌝⟩⦄ := by
  mvcgen [Cache.flush, modifyCache]

end ForthMachine.Buffers

/-! ## Flushing keeps the buffers in place

A flush writes dirty blocks back and marks both slots empty: it never moves a buffer or changes
its bytes, whether a write fails or not. -/

namespace ForthMachine.Placement

open ForthMachine.Block

variable (p : (UInt32 × ByteArray) × (UInt32 × ByteArray))

@[scoped spec] theorem writeBackActive_places :
    ⦃fun st => ⌜st.1.places = p⌝⦄ (writeBackActive : CacheM Disk Unit)
    ⦃post⟨fun _ st => ⌜st.1.places = p⌝, fun _ st => ⌜st.1.places = p⌝⟩⦄ := by
  mvcgen [writeBackActive]
  rename_i hs _ _ _ _ hw
  rw [← hs]
  simp only [Cache.places, writeBack_place hw]

@[scoped spec] theorem writeBackOlder_places :
    ⦃fun st => ⌜st.1.places = p⌝⦄ (writeBackOlder : CacheM Disk Unit)
    ⦃post⟨fun _ st => ⌜st.1.places = p⌝, fun _ st => ⌜st.1.places = p⌝⟩⦄ := by
  mvcgen [writeBackOlder]
  rename_i hs _ _ _ _ hw
  rw [← hs]
  simp only [Cache.places, writeBack_place hw]

theorem flush_places :
    ⦃fun st => ⌜st.1.places = p⌝⦄ (Cache.flush : CacheM Disk Unit)
    ⦃post⟨fun _ st => ⌜st.1.places = p⌝, fun _ st => ⌜st.1.places = p⌝⟩⦄ := by
  mvcgen [Cache.flush, modifyCache]
  -- emptying a slot keeps its place, so the places each step keeps chain back to the start
  all_goals
    intros
    simp_all +zetaDelta only [Cache.places, Slot.place]

end ForthMachine.Placement

namespace ForthMachine

open ForthMachine.Text ForthMachine.Memory ForthMachine.Block

/-- A slice that succeeds lies inside the region. -/
theorem Memory.Region.fits_of_slice {r : Region} {a : UInt32} {n : Nat} {bs : List UInt8}
    (h : r.slice a n = .ok bs) : a.toNat + n ≤ r.bytes.size := by
  unfold Region.slice Region.check at h
  split at h
  · cases h
  · omega

/-- A slice that fails runs past the end of the region. -/
theorem Memory.Region.overflows_of_slice {r : Region} {a : UInt32} {n : Nat} {e : AddrError}
    (h : r.slice a n = .error e) : r.bytes.size < a.toNat + n := by
  unfold Region.slice Region.check at h
  split at h
  · omega
  · cases h

/-- A slice of `n` bytes has `n` bytes. -/
theorem Memory.Region.length_of_slice {r : Region} {a : UInt32} {n : Nat} {bs : List UInt8}
    (h : r.slice a n = .ok bs) : bs.length = n := by
  unfold Region.slice Region.check at h
  split at h
  · cases h
  · rename_i hn
    simp only [bind, Except.bind, pure, Except.pure, Except.ok.injEq] at h
    subst h
    rw [Memory.ByteArray.length_toList, ByteArray.size_extract]
    omega

/-- The machine's block buffers, if it has a cache, are of a block's size each. -/
abbrev Machine.BuffersFull (m : Machine) : Prop := ∀ c, m.cache = some c → c.Full

@[simp] theorem Machine.cache_setStack (m : Machine) (st : StackName) (t : Stack) :
    (m.setStack st t).cache = m.cache := by
  cases st <;> rfl

/-- Changing the cache by a map that keeps caches full keeps the buffers full. -/
theorem Machine.BuffersFull.map_cache {m : Machine} (h : m.BuffersFull) {f : Cache → Cache}
    (hf : ∀ c, c.Full → (f c).Full) : { m with cache := m.cache.map f }.BuffersFull := by
  intro c hc
  obtain ⟨c₀, h₀, rfl⟩ := Option.map_eq_some_iff.mp hc
  exact hf c₀ (h c₀ h₀)

/-- Reading a slot's buffer from the region gives it a block's size, or keeps it. -/
theorem Machine.loadSlot_full (m : Machine) {s : Slot} (h : s.Full) : (m.loadSlot s).Full := by
  unfold Machine.loadSlot
  split
  · rename_i bs hbs
    show bs.toArray.size = blockSize
    rw [List.size_toArray, Region.length_of_slice hbs]
  · exact h

namespace Buffers

/-- A cache operation that keeps a property of the cache keeps it from the cache its run started
with, whether it fails or not. -/
theorem cache_run {α : Type} {P : Cache → Prop} {op : CacheM Disk α}
    (hop : ⦃fun st => ⌜P st.1⌝⦄ op ⦃post⟨fun _ st => ⌜P st.1⌝, fun _ st => ⌜P st.1⌝⟩⦄)
    (st : Cache × Option Disk) (h : P st.1) :
    match op.run st with
    | .ok _ st' => P st'.1
    | .error _ st' => P st'.1 :=
  EStateM.of_wp_run_eq rfl (fun (res : EStateM.Result CacheError (Cache × Option Disk) α) =>
    match res with
    | .ok _ st' => P st'.1
    | .error _ st' => P st'.1) fun _ => hop st h

@[scoped spec] theorem trace_full (mark : String) (msg : Unit → Bytes) :
    ⦃fun s => ⌜s.BuffersFull⌝⦄ trace mark msg ⦃post⟨fun _ s => ⌜s.BuffersFull⌝, fun _ s => ⌜s.BuffersFull⌝⟩⦄ :=
  Vm.triple_of_run fun s hs => by
    obtain ⟨t, ht⟩ := trace_run mark msg s
    rw [ht]
    exact hs

@[scoped spec] theorem emitBytes_full (p : Bytes) :
    ⦃fun s => ⌜s.BuffersFull⌝⦄ emitBytes p ⦃post⟨fun _ s => ⌜s.BuffersFull⌝, fun _ s => ⌜s.BuffersFull⌝⟩⦄ := by
  mvcgen [emitBytes]

@[scoped spec] theorem loadCell_full (a : UInt32) :
    ⦃fun s => ⌜s.BuffersFull⌝⦄ loadCell a ⦃post⟨fun _ s => ⌜s.BuffersFull⌝, fun _ s => ⌜s.BuffersFull⌝⟩⦄ := by
  mvcgen [loadCell, Vm.ofRegion]

@[scoped spec] theorem changeRegion_full (f : Region → Region) :
    ⦃fun s => ⌜s.BuffersFull⌝⦄ changeRegion f ⦃post⟨fun _ s => ⌜s.BuffersFull⌝, fun _ s => ⌜s.BuffersFull⌝⟩⦄ := by
  mvcgen [changeRegion, takeRegion]

@[scoped spec] theorem storCell_full (a v : UInt32) :
    ⦃fun s => ⌜s.BuffersFull⌝⦄ storCell a v ⦃post⟨fun _ s => ⌜s.BuffersFull⌝, fun _ s => ⌜s.BuffersFull⌝⟩⦄ := by
  mvcgen [storCell, Vm.ofRegion]

@[scoped spec] theorem storByte_full (a : UInt32) (b : UInt8) :
    ⦃fun s => ⌜s.BuffersFull⌝⦄ storByte a b ⦃post⟨fun _ s => ⌜s.BuffersFull⌝, fun _ s => ⌜s.BuffersFull⌝⟩⦄ := by
  mvcgen [storByte, Vm.ofRegion]

@[scoped spec] theorem copyIn_full (a : UInt32) (bs : Bytes) :
    ⦃fun s => ⌜s.BuffersFull⌝⦄ copyIn a bs ⦃post⟨fun _ s => ⌜s.BuffersFull⌝, fun _ s => ⌜s.BuffersFull⌝⟩⦄ := by
  mvcgen [copyIn, Vm.ofRegion]

@[scoped spec] theorem slice_full (a : UInt32) (n : Nat) :
    ⦃fun s => ⌜s.BuffersFull⌝⦄ slice a n ⦃post⟨fun _ s => ⌜s.BuffersFull⌝, fun _ s => ⌜s.BuffersFull⌝⟩⦄ := by
  mvcgen [slice, Vm.ofRegion]

@[scoped spec] theorem push_full (st : StackName) (v : UInt32) :
    ⦃fun s => ⌜s.BuffersFull⌝⦄ push st v ⦃post⟨fun _ s => ⌜s.BuffersFull⌝, fun _ s => ⌜s.BuffersFull⌝⟩⦄ := by
  mvcgen [push]
  all_goals simp_all +zetaDelta only [Machine.BuffersFull, Machine.cache_setStack, implies_true]

@[scoped spec] theorem peek_full (st : StackName) (n : UInt32) :
    ⦃fun s => ⌜s.BuffersFull⌝⦄ peek st n ⦃post⟨fun _ s => ⌜s.BuffersFull⌝, fun _ s => ⌜s.BuffersFull⌝⟩⦄ := by
  mvcgen [peek, Vm.ofStack]

@[scoped spec] theorem dropCells_full (st : StackName) (n : UInt32) :
    ⦃fun s => ⌜s.BuffersFull⌝⦄ dropCells st n ⦃post⟨fun _ s => ⌜s.BuffersFull⌝, fun _ s => ⌜s.BuffersFull⌝⟩⦄ := by
  mvcgen [dropCells, Vm.ofStack]
  all_goals simp_all +zetaDelta only [Machine.BuffersFull, Machine.cache_setStack, implies_true]

@[scoped spec] theorem pop_full (st : StackName) :
    ⦃fun s => ⌜s.BuffersFull⌝⦄ pop st ⦃post⟨fun _ s => ⌜s.BuffersFull⌝, fun _ s => ⌜s.BuffersFull⌝⟩⦄ := by
  mvcgen [pop]

@[scoped spec] theorem poke_full (st : StackName) (n v : UInt32) :
    ⦃fun s => ⌜s.BuffersFull⌝⦄ poke st n v ⦃post⟨fun _ s => ⌜s.BuffersFull⌝, fun _ s => ⌜s.BuffersFull⌝⟩⦄ := by
  mvcgen [poke, Vm.ofStack]

@[scoped spec] theorem popN_full (n : Nat) :
    ⦃fun s => ⌜s.BuffersFull⌝⦄ popN n ⦃post⟨fun _ s => ⌜s.BuffersFull⌝, fun _ s => ⌜s.BuffersFull⌝⟩⦄ := by
  mvcgen [popN] invariants
  | inv1 => post⟨fun _ s => ⌜s.BuffersFull⌝, fun _ s => ⌜s.BuffersFull⌝⟩
  all_goals simp_all only [Nat.toUInt32_eq, UInt32.not_lt, imp_self]

@[scoped spec] theorem pushAll_full (vs : List UInt32) :
    ⦃fun s => ⌜s.BuffersFull⌝⦄ pushAll vs ⦃post⟨fun _ s => ⌜s.BuffersFull⌝, fun _ s => ⌜s.BuffersFull⌝⟩⦄ := by
  induction vs with
  | nil => mvcgen [pushAll]
  | cons v vs ih =>
    have h : pushAll (v :: vs) = (do push .data v; pushAll vs) := rfl
    rw [h]
    mvcgen [ih]

@[scoped spec] theorem radix_full :
    ⦃fun s => ⌜s.BuffersFull⌝⦄ radix ⦃post⟨fun _ s => ⌜s.BuffersFull⌝, fun _ s => ⌜s.BuffersFull⌝⟩⦄ := by
  mvcgen [radix]

@[scoped spec] theorem checkData_full (a : UInt32) (n : Nat) (acc : Access) :
    ⦃fun s => ⌜s.BuffersFull⌝⦄ checkData a n acc ⦃post⟨fun _ s => ⌜s.BuffersFull⌝, fun _ s => ⌜s.BuffersFull⌝⟩⦄ := by
  mvcgen [checkData]

@[scoped spec] theorem loadData_full (a : UInt32) :
    ⦃fun s => ⌜s.BuffersFull⌝⦄ loadData a ⦃post⟨fun _ s => ⌜s.BuffersFull⌝, fun _ s => ⌜s.BuffersFull⌝⟩⦄ := by
  mvcgen [loadData]

@[scoped spec] theorem storData_full (a v : UInt32) :
    ⦃fun s => ⌜s.BuffersFull⌝⦄ storData a v ⦃post⟨fun _ s => ⌜s.BuffersFull⌝, fun _ s => ⌜s.BuffersFull⌝⟩⦄ := by
  mvcgen [storData]

@[scoped spec] theorem dataBytes_full (a : UInt32) (n : Nat) :
    ⦃fun s => ⌜s.BuffersFull⌝⦄ dataBytes a n ⦃post⟨fun _ s => ⌜s.BuffersFull⌝, fun _ s => ⌜s.BuffersFull⌝⟩⦄ := by
  mvcgen [dataBytes]

@[scoped spec] theorem nextToken_full :
    ⦃fun s => ⌜s.BuffersFull⌝⦄ nextToken ⦃post⟨fun _ s => ⌜s.BuffersFull⌝, fun _ s => ⌜s.BuffersFull⌝⟩⦄ := by
  mvcgen [nextToken]

@[scoped spec] theorem parseUntil_full (d : UInt8) :
    ⦃fun s => ⌜s.BuffersFull⌝⦄ parseUntil d ⦃post⟨fun _ s => ⌜s.BuffersFull⌝, fun _ s => ⌜s.BuffersFull⌝⟩⦄ := by
  mvcgen [parseUntil]

@[scoped spec] theorem parseName_full :
    ⦃fun s => ⌜s.BuffersFull⌝⦄ parseName ⦃post⟨fun _ s => ⌜s.BuffersFull⌝, fun _ s => ⌜s.BuffersFull⌝⟩⦄ := by
  mvcgen [parseName]

@[scoped spec] theorem skipLine_full :
    ⦃fun s => ⌜s.BuffersFull⌝⦄ skipLine ⦃post⟨fun _ s => ⌜s.BuffersFull⌝, fun _ s => ⌜s.BuffersFull⌝⟩⦄ := by
  mvcgen [skipLine]

@[scoped spec] theorem wordInfo_full (h : UInt32) :
    ⦃fun s => ⌜s.BuffersFull⌝⦄ wordInfo h ⦃post⟨fun _ s => ⌜s.BuffersFull⌝, fun _ s => ⌜s.BuffersFull⌝⟩⦄ := by
  mvcgen [wordInfo, Vm.ofRegion]

@[scoped spec] theorem allocate_full (n : UInt32) :
    ⦃fun s => ⌜s.BuffersFull⌝⦄ allocate n ⦃post⟨fun _ s => ⌜s.BuffersFull⌝, fun _ s => ⌜s.BuffersFull⌝⟩⦄ := by
  mvcgen [allocate, Vm.ofRegion, changeRegion, takeRegion]

@[scoped spec] theorem define_full (name : Bytes) (flags : UInt8) :
    ⦃fun s => ⌜s.BuffersFull⌝⦄ define name flags
    ⦃post⟨fun _ s => ⌜s.BuffersFull⌝, fun _ s => ⌜s.BuffersFull⌝⟩⦄ := by
  mvcgen [define]

@[scoped spec] theorem abandon_full :
    ⦃fun s => ⌜s.BuffersFull⌝⦄ abandon ⦃post⟨fun _ s => ⌜s.BuffersFull⌝, fun _ s => ⌜s.BuffersFull⌝⟩⦄ := by
  mvcgen [abandon]

@[scoped spec] theorem setFlags_full (h : UInt32) (a b : UInt8) :
    ⦃fun s => ⌜s.BuffersFull⌝⦄ setFlags h a b ⦃post⟨fun _ s => ⌜s.BuffersFull⌝, fun _ s => ⌜s.BuffersFull⌝⟩⦄ := by
  mvcgen [setFlags]

@[scoped spec] theorem compileCell_full (v : UInt32) :
    ⦃fun s => ⌜s.BuffersFull⌝⦄ compileCell v ⦃post⟨fun _ s => ⌜s.BuffersFull⌝, fun _ s => ⌜s.BuffersFull⌝⟩⦄ := by
  mvcgen [compileCell]

@[scoped spec] theorem compileToken_full (k : TokenKind) (a : UInt32) :
    ⦃fun s => ⌜s.BuffersFull⌝⦄ compileToken k a ⦃post⟨fun _ s => ⌜s.BuffersFull⌝, fun _ s => ⌜s.BuffersFull⌝⟩⦄ := by
  mvcgen [compileToken]

@[scoped spec] theorem compileOperand_full (k : TokenKind) (a : UInt32) :
    ⦃fun s => ⌜s.BuffersFull⌝⦄ compileOperand k a ⦃post⟨fun _ s => ⌜s.BuffersFull⌝, fun _ s => ⌜s.BuffersFull⌝⟩⦄ := by
  mvcgen [compileOperand]

@[scoped spec] theorem patch_full (site target : UInt32) :
    ⦃fun s => ⌜s.BuffersFull⌝⦄ patch site target ⦃post⟨fun _ s => ⌜s.BuffersFull⌝, fun _ s => ⌜s.BuffersFull⌝⟩⦄ := by
  mvcgen [patch]

@[scoped spec] theorem pushFixup_full (k : Fixup) (site : UInt32) :
    ⦃fun s => ⌜s.BuffersFull⌝⦄ pushFixup k site ⦃post⟨fun _ s => ⌜s.BuffersFull⌝, fun _ s => ⌜s.BuffersFull⌝⟩⦄ := by
  mvcgen [pushFixup]

@[scoped spec] theorem popFixup_full (want : List Fixup) :
    ⦃fun s => ⌜s.BuffersFull⌝⦄ popFixup want ⦃post⟨fun _ s => ⌜s.BuffersFull⌝, fun _ s => ⌜s.BuffersFull⌝⟩⦄ := by
  mvcgen [popFixup]

@[scoped spec] theorem compileWord_full (h : UInt32) :
    ⦃fun s => ⌜s.BuffersFull⌝⦄ compileWord h ⦃post⟨fun _ s => ⌜s.BuffersFull⌝, fun _ s => ⌜s.BuffersFull⌝⟩⦄ := by
  mvcgen [compileWord]

@[scoped spec] theorem endDefinition_full :
    ⦃fun s => ⌜s.BuffersFull⌝⦄ endDefinition ⦃post⟨fun _ s => ⌜s.BuffersFull⌝, fun _ s => ⌜s.BuffersFull⌝⟩⦄ := by
  mvcgen [endDefinition]

@[scoped spec] theorem makeImmediate_full :
    ⦃fun s => ⌜s.BuffersFull⌝⦄ makeImmediate ⦃post⟨fun _ s => ⌜s.BuffersFull⌝, fun _ s => ⌜s.BuffersFull⌝⟩⦄ := by
  mvcgen [makeImmediate]

@[scoped spec] theorem compileRecurse_full :
    ⦃fun s => ⌜s.BuffersFull⌝⦄ compileRecurse ⦃post⟨fun _ s => ⌜s.BuffersFull⌝, fun _ s => ⌜s.BuffersFull⌝⟩⦄ := by
  mvcgen [compileRecurse]

@[scoped spec] theorem compileLiteral_full :
    ⦃fun s => ⌜s.BuffersFull⌝⦄ compileLiteral ⦃post⟨fun _ s => ⌜s.BuffersFull⌝, fun _ s => ⌜s.BuffersFull⌝⟩⦄ := by
  mvcgen [compileLiteral]

@[scoped spec] theorem compileExit_full :
    ⦃fun s => ⌜s.BuffersFull⌝⦄ compileExit ⦃post⟨fun _ s => ⌜s.BuffersFull⌝, fun _ s => ⌜s.BuffersFull⌝⟩⦄ := by
  mvcgen [compileExit]

@[scoped spec] theorem compileIf_full :
    ⦃fun s => ⌜s.BuffersFull⌝⦄ compileIf ⦃post⟨fun _ s => ⌜s.BuffersFull⌝, fun _ s => ⌜s.BuffersFull⌝⟩⦄ := by
  mvcgen [compileIf]

@[scoped spec] theorem compileElse_full :
    ⦃fun s => ⌜s.BuffersFull⌝⦄ compileElse ⦃post⟨fun _ s => ⌜s.BuffersFull⌝, fun _ s => ⌜s.BuffersFull⌝⟩⦄ := by
  mvcgen [compileElse]

@[scoped spec] theorem compileThen_full :
    ⦃fun s => ⌜s.BuffersFull⌝⦄ compileThen ⦃post⟨fun _ s => ⌜s.BuffersFull⌝, fun _ s => ⌜s.BuffersFull⌝⟩⦄ := by
  mvcgen [compileThen]

@[scoped spec] theorem compileBegin_full :
    ⦃fun s => ⌜s.BuffersFull⌝⦄ compileBegin ⦃post⟨fun _ s => ⌜s.BuffersFull⌝, fun _ s => ⌜s.BuffersFull⌝⟩⦄ := by
  mvcgen [compileBegin]

@[scoped spec] theorem compileUntil_full :
    ⦃fun s => ⌜s.BuffersFull⌝⦄ compileUntil ⦃post⟨fun _ s => ⌜s.BuffersFull⌝, fun _ s => ⌜s.BuffersFull⌝⟩⦄ := by
  mvcgen [compileUntil]

@[scoped spec] theorem compileAgain_full :
    ⦃fun s => ⌜s.BuffersFull⌝⦄ compileAgain ⦃post⟨fun _ s => ⌜s.BuffersFull⌝, fun _ s => ⌜s.BuffersFull⌝⟩⦄ := by
  mvcgen [compileAgain]

@[scoped spec] theorem compileWhile_full :
    ⦃fun s => ⌜s.BuffersFull⌝⦄ compileWhile ⦃post⟨fun _ s => ⌜s.BuffersFull⌝, fun _ s => ⌜s.BuffersFull⌝⟩⦄ := by
  mvcgen [compileWhile]

@[scoped spec] theorem compileRepeat_full :
    ⦃fun s => ⌜s.BuffersFull⌝⦄ compileRepeat ⦃post⟨fun _ s => ⌜s.BuffersFull⌝, fun _ s => ⌜s.BuffersFull⌝⟩⦄ := by
  mvcgen [compileRepeat]

@[scoped spec] theorem compileDo_full :
    ⦃fun s => ⌜s.BuffersFull⌝⦄ compileDo ⦃post⟨fun _ s => ⌜s.BuffersFull⌝, fun _ s => ⌜s.BuffersFull⌝⟩⦄ := by
  mvcgen [compileDo]

@[scoped spec] theorem closeLoop_full (k : TokenKind) :
    ⦃fun s => ⌜s.BuffersFull⌝⦄ closeLoop k ⦃post⟨fun _ s => ⌜s.BuffersFull⌝, fun _ s => ⌜s.BuffersFull⌝⟩⦄ := by
  mvcgen [closeLoop]

@[scoped spec] theorem pushFromReturn_full (n : UInt32) :
    ⦃fun s => ⌜s.BuffersFull⌝⦄ pushFromReturn n ⦃post⟨fun _ s => ⌜s.BuffersFull⌝, fun _ s => ⌜s.BuffersFull⌝⟩⦄ := by
  mvcgen [pushFromReturn]

@[scoped spec] theorem leaveLoop_full :
    ⦃fun s => ⌜s.BuffersFull⌝⦄ leaveLoop ⦃post⟨fun _ s => ⌜s.BuffersFull⌝, fun _ s => ⌜s.BuffersFull⌝⟩⦄ := by
  mvcgen [leaveLoop]

@[scoped spec] theorem compileString_full (text : Bytes) :
    ⦃fun s => ⌜s.BuffersFull⌝⦄ printString.compileString text ⦃post⟨fun _ s => ⌜s.BuffersFull⌝, fun _ s => ⌜s.BuffersFull⌝⟩⦄ := by
  mvcgen [printString.compileString]

@[scoped spec] theorem printString_full :
    ⦃fun s => ⌜s.BuffersFull⌝⦄ printString ⦃post⟨fun _ s => ⌜s.BuffersFull⌝, fun _ s => ⌜s.BuffersFull⌝⟩⦄ := by
  mvcgen [printString]

@[scoped spec] theorem stringLiteral_full :
    ⦃fun s => ⌜s.BuffersFull⌝⦄ stringLiteral ⦃post⟨fun _ s => ⌜s.BuffersFull⌝, fun _ s => ⌜s.BuffersFull⌝⟩⦄ := by
  mvcgen [stringLiteral]

@[scoped spec] theorem parseChar_full :
    ⦃fun s => ⌜s.BuffersFull⌝⦄ parseChar ⦃post⟨fun _ s => ⌜s.BuffersFull⌝, fun _ s => ⌜s.BuffersFull⌝⟩⦄ := by
  mvcgen [parseChar]

@[scoped spec] theorem defineData_full (c : Bool) (v size : UInt32) :
    ⦃fun s => ⌜s.BuffersFull⌝⦄ defineData c v size ⦃post⟨fun _ s => ⌜s.BuffersFull⌝, fun _ s => ⌜s.BuffersFull⌝⟩⦄ := by
  mvcgen [defineData]

@[scoped spec] theorem allotSpace_full :
    ⦃fun s => ⌜s.BuffersFull⌝⦄ allotSpace ⦃post⟨fun _ s => ⌜s.BuffersFull⌝, fun _ s => ⌜s.BuffersFull⌝⟩⦄ := by
  mvcgen [allotSpace]

@[scoped spec] theorem compileByte_full :
    ⦃fun s => ⌜s.BuffersFull⌝⦄ compileByte ⦃post⟨fun _ s => ⌜s.BuffersFull⌝, fun _ s => ⌜s.BuffersFull⌝⟩⦄ := by
  mvcgen [compileByte]

@[scoped spec] theorem beginDefinition_full :
    ⦃fun s => ⌜s.BuffersFull⌝⦄ beginDefinition ⦃post⟨fun _ s => ⌜s.BuffersFull⌝, fun _ s => ⌜s.BuffersFull⌝⟩⦄ := by
  mvcgen [beginDefinition]

@[scoped spec] theorem compilerWord_full (w : CompilerWord) :
    ⦃fun s => ⌜s.BuffersFull⌝⦄ w.run ⦃post⟨fun _ s => ⌜s.BuffersFull⌝, fun _ s => ⌜s.BuffersFull⌝⟩⦄ := by
  cases w <;> mvcgen [CompilerWord.run]

@[scoped spec] theorem shuffleCells_full (arity : Nat) (perm : List Nat) :
    ⦃fun s => ⌜s.BuffersFull⌝⦄ shuffleCells arity perm ⦃post⟨fun _ s => ⌜s.BuffersFull⌝, fun _ s => ⌜s.BuffersFull⌝⟩⦄ := by
  mvcgen [shuffleCells]

@[scoped spec] theorem divideCells_full (d : DivisionResult) :
    ⦃fun s => ⌜s.BuffersFull⌝⦄ divideCells d ⦃post⟨fun _ s => ⌜s.BuffersFull⌝, fun _ s => ⌜s.BuffersFull⌝⟩⦄ := by
  mvcgen [divideCells]

@[scoped spec] theorem formatCell_full (v : UInt32) (u : Bool) :
    ⦃fun s => ⌜s.BuffersFull⌝⦄ formatCell v u ⦃post⟨fun _ s => ⌜s.BuffersFull⌝, fun _ s => ⌜s.BuffersFull⌝⟩⦄ := by
  mvcgen [formatCell]

@[scoped spec] theorem callWord_full (h : UInt32) :
    ⦃fun s => ⌜s.BuffersFull⌝⦄ callWord h ⦃post⟨fun _ s => ⌜s.BuffersFull⌝, fun _ s => ⌜s.BuffersFull⌝⟩⦄ := by
  mvcgen [callWord]

@[scoped spec] theorem writeSpacesGo_full (n fuel : Nat) :
    ⦃fun s => ⌜s.BuffersFull⌝⦄ writeSpaces.go n fuel ⦃post⟨fun _ s => ⌜s.BuffersFull⌝, fun _ s => ⌜s.BuffersFull⌝⟩⦄ := by
  induction fuel generalizing n with
  | zero => mvcgen [writeSpaces.go]
  | succ fuel ih => mvcgen [writeSpaces.go, ih]

@[scoped spec] theorem writeSpaces_full (n : Int) :
    ⦃fun s => ⌜s.BuffersFull⌝⦄ writeSpaces n ⦃post⟨fun _ s => ⌜s.BuffersFull⌝, fun _ s => ⌜s.BuffersFull⌝⟩⦄ := by
  mvcgen [writeSpaces]

@[scoped spec] theorem libraryWord_full (w : LibraryWord) :
    ⦃fun s => ⌜s.BuffersFull⌝⦄ w.run ⦃post⟨fun _ s => ⌜s.BuffersFull⌝, fun _ s => ⌜s.BuffersFull⌝⟩⦄ := by
  cases w
  case dotS =>
    mvcgen [LibraryWord.run] invariants
    | inv1 => post⟨fun _ s => ⌜s.BuffersFull⌝, fun _ s => ⌜s.BuffersFull⌝⟩
  all_goals mvcgen [LibraryWord.run]

/-- A cache operation that keeps the buffers full keeps them so on the machine: the buffers it
starts from are read from the region at a block's size, or kept as they were. -/
theorem withCache_full {α : Type} {op : CacheM Disk α}
    (hop : ⦃fun st => ⌜st.1.Full⌝⦄ op ⦃post⟨fun _ st => ⌜st.1.Full⌝, fun _ st => ⌜st.1.Full⌝⟩⦄) :
    ⦃fun s => ⌜s.BuffersFull⌝⦄ withCache op ⦃post⟨fun _ s => ⌜s.BuffersFull⌝, fun _ s => ⌜s.BuffersFull⌝⟩⦄ :=
  Vm.triple_of_run fun s hs => by
    simp only [withCache, EStateM.run_bind, EStateM.run_get]
    cases hc : s.cache with
    | none => exact hs
    | some c =>
      have hl : Cache.Full ⟨s.loadSlot c.active, s.loadSlot c.older⟩ :=
        ⟨s.loadSlot_full (hs c hc).1, s.loadSlot_full (hs c hc).2⟩
      have hr := cache_run hop (⟨s.loadSlot c.active, s.loadSlot c.older⟩, s.disk) hl
      -- the machine takes the cache the operation left, whether it failed or not
      cases hrun : op.run (⟨s.loadSlot c.active, s.loadSlot c.older⟩, s.disk) with
      | ok a st' =>
        rw [hrun] at hr
        simp only [changeRegion, takeRegion, EStateM.run_bind, EStateM.run_modify,
          EStateM.run_modifyGet, hrun, EStateM.run_pure]
        intro c' hc'
        cases hc'
        exact hr
      | error e st' =>
        rw [hrun] at hr
        simp only [changeRegion, takeRegion, EStateM.run_bind, EStateM.run_modify,
          EStateM.run_modifyGet, hrun]
        intro c' hc'
        cases hc'
        exact hr

@[scoped spec] theorem popBlockIndex_full :
    ⦃fun s => ⌜s.BuffersFull⌝⦄ popBlockIndex ⦃post⟨fun _ s => ⌜s.BuffersFull⌝, fun _ s => ⌜s.BuffersFull⌝⟩⦄ := by
  mvcgen [popBlockIndex]

theorem blockAddr_full {f : UInt16 → CacheM Disk UInt32}
    (hf : ∀ idx, ⦃fun st => ⌜st.1.Full⌝⦄ f idx ⦃post⟨fun _ st => ⌜st.1.Full⌝, fun _ st => ⌜st.1.Full⌝⟩⦄) :
    ⦃fun s => ⌜s.BuffersFull⌝⦄ blockAddr f ⦃post⟨fun _ s => ⌜s.BuffersFull⌝, fun _ s => ⌜s.BuffersFull⌝⟩⦄ := by
  have hw : ∀ idx, ⦃fun s => ⌜s.BuffersFull⌝⦄ withCache (f idx)
      ⦃post⟨fun _ s => ⌜s.BuffersFull⌝, fun _ s => ⌜s.BuffersFull⌝⟩⦄ := fun idx => withCache_full (hf idx)
  mvcgen [blockAddr, hw]

@[scoped spec] theorem blockWord_full (w : BlockWord) :
    ⦃fun s => ⌜s.BuffersFull⌝⦄ w.run ⦃post⟨fun _ s => ⌜s.BuffersFull⌝, fun _ s => ⌜s.BuffersFull⌝⟩⦄ := by
  have hblock := blockAddr_full block_full
  have hbuffer := blockAddr_full buffer_full
  have hflush := withCache_full flush_full
  cases w <;> mvcgen [BlockWord.run, hblock, hbuffer, hflush]
  case vc1.emptyBuffers => exact Machine.BuffersFull.map_cache ‹_› fun _ h => h.emptyBuffers
  case vc1.update => exact Machine.BuffersFull.map_cache ‹_› fun _ h => h.update

@[scoped spec] theorem fetchCode_full (pos : UInt32) :
    ⦃fun s => ⌜s.BuffersFull⌝⦄ fetchCode pos ⦃post⟨fun _ s => ⌜s.BuffersFull⌝, fun _ s => ⌜s.BuffersFull⌝⟩⦄ := by
  mvcgen [fetchCode]

@[scoped spec] theorem nextOperand_full :
    ⦃fun s => ⌜s.BuffersFull⌝⦄ nextOperand ⦃post⟨fun _ s => ⌜s.BuffersFull⌝, fun _ s => ⌜s.BuffersFull⌝⟩⦄ := by
  mvcgen [nextOperand]

@[scoped spec] theorem hostAction_full (a : HostAction) :
    ⦃fun s => ⌜s.BuffersFull⌝⦄ a.run ⦃post⟨fun _ s => ⌜s.BuffersFull⌝, fun _ s => ⌜s.BuffersFull⌝⟩⦄ := by
  cases a <;> mvcgen [HostAction.run]

@[scoped spec] theorem action_full (a : Action) :
    ⦃fun s => ⌜s.BuffersFull⌝⦄ a.run ⦃post⟨fun _ s => ⌜s.BuffersFull⌝, fun _ s => ⌜s.BuffersFull⌝⟩⦄ := by
  cases a <;> mvcgen [Action.run]

@[scoped spec] theorem callPrim_full (idx : UInt32) :
    ⦃fun s => ⌜s.BuffersFull⌝⦄ callPrim idx ⦃post⟨fun _ s => ⌜s.BuffersFull⌝, fun _ s => ⌜s.BuffersFull⌝⟩⦄ := by
  mvcgen [callPrim]

@[scoped spec] theorem enterLoop_full :
    ⦃fun s => ⌜s.BuffersFull⌝⦄ enterLoop ⦃post⟨fun _ s => ⌜s.BuffersFull⌝, fun _ s => ⌜s.BuffersFull⌝⟩⦄ := by
  mvcgen [enterLoop]

@[scoped spec] theorem stepLoop_full (step : UInt32) :
    ⦃fun s => ⌜s.BuffersFull⌝⦄ stepLoop step ⦃post⟨fun _ s => ⌜s.BuffersFull⌝, fun _ s => ⌜s.BuffersFull⌝⟩⦄ := by
  mvcgen [stepLoop]

@[scoped spec] theorem dispatch_full (base pos code : UInt32) :
    ⦃fun s => ⌜s.BuffersFull⌝⦄ dispatch base pos code ⦃post⟨fun _ s => ⌜s.BuffersFull⌝, fun _ s => ⌜s.BuffersFull⌝⟩⦄ := by
  mvcgen [dispatch]

@[scoped spec] theorem parseLiteral_full (tok : Bytes) :
    ⦃fun s => ⌜s.BuffersFull⌝⦄ parseLiteral tok ⦃post⟨fun _ s => ⌜s.BuffersFull⌝, fun _ s => ⌜s.BuffersFull⌝⟩⦄ := by
  mvcgen [parseLiteral]

@[scoped spec] theorem fetchToken_full (limit : StepLimit) :
    ⦃fun s => ⌜s.BuffersFull⌝⦄ fetchToken limit ⦃post⟨fun _ s => ⌜s.BuffersFull⌝, fun _ s => ⌜s.BuffersFull⌝⟩⦄ := by
  mvcgen [fetchToken]

@[scoped spec] theorem step_full (limit : StepLimit) (base : UInt32) :
    ⦃fun s => ⌜s.BuffersFull⌝⦄ step limit base ⦃post⟨fun _ s => ⌜s.BuffersFull⌝, fun _ s => ⌜s.BuffersFull⌝⟩⦄ := by
  mvcgen [step]

@[scoped spec] theorem runSteps_full (limit : StepLimit) (base : UInt32) (fuel : Nat) :
    ⦃fun s => ⌜s.BuffersFull⌝⦄ runSteps limit base fuel ⦃post⟨fun _ s => ⌜s.BuffersFull⌝, fun _ s => ⌜s.BuffersFull⌝⟩⦄ := by
  induction fuel with
  | zero => mvcgen [runSteps]
  | succ fuel ih => mvcgen [runSteps, ih]

@[scoped spec] theorem runWord_full (limit : StepLimit) (h : UInt32) :
    ⦃fun s => ⌜s.BuffersFull⌝⦄ runWord limit h ⦃post⟨fun _ s => ⌜s.BuffersFull⌝, fun _ s => ⌜s.BuffersFull⌝⟩⦄ := by
  mvcgen [runWord]

@[scoped spec] theorem interpretToken_full (limit : StepLimit) (tok : Bytes) :
    ⦃fun s => ⌜s.BuffersFull⌝⦄ interpretToken limit tok ⦃post⟨fun _ s => ⌜s.BuffersFull⌝, fun _ s => ⌜s.BuffersFull⌝⟩⦄ := by
  mvcgen [interpretToken]

@[scoped spec] theorem interpret_full (limit : StepLimit) (fuel : Nat) :
    ⦃fun s => ⌜s.BuffersFull⌝⦄ interpret limit fuel ⦃post⟨fun _ s => ⌜s.BuffersFull⌝, fun _ s => ⌜s.BuffersFull⌝⟩⦄ := by
  induction fuel with
  | zero => mvcgen [interpret]
  | succ fuel ih => mvcgen [interpret, ih]

@[scoped spec] theorem installPrimitive_full (p : Primitive) :
    ⦃fun s => ⌜s.BuffersFull⌝⦄ installPrimitive p ⦃post⟨fun _ s => ⌜s.BuffersFull⌝, fun _ s => ⌜s.BuffersFull⌝⟩⦄ := by
  mvcgen [installPrimitive]

@[scoped spec] theorem installAll_full (ps : List Primitive) :
    ⦃fun s => ⌜s.BuffersFull⌝⦄ installAll ps ⦃post⟨fun _ s => ⌜s.BuffersFull⌝, fun _ s => ⌜s.BuffersFull⌝⟩⦄ := by
  induction ps with
  | nil => mvcgen [installAll]
  | cons p ps ih =>
    have h : installAll (p :: ps) = (do installPrimitive p; installAll ps) := rfl
    rw [h]
    mvcgen [ih]

@[scoped spec] theorem checkSettings_full (st : Settings) :
    ⦃fun s => ⌜s.BuffersFull⌝⦄ checkSettings st ⦃post⟨fun _ s => ⌜s.BuffersFull⌝, fun _ s => ⌜s.BuffersFull⌝⟩⦄ := by
  mvcgen [checkSettings]

@[scoped spec] theorem layOut_full :
    ⦃fun s => ⌜s.BuffersFull⌝⦄ layOut ⦃post⟨fun _ s => ⌜s.BuffersFull⌝, fun _ s => ⌜s.BuffersFull⌝⟩⦄ := by
  mvcgen [layOut]
  -- every way through the layout ends with the cache it makes afresh: two blocks of spaces
  all_goals
    intro c hc
    simp +zetaDelta only at hc
    split at hc
    · cases hc
      exact Cache.full_new (size_spaces _) (size_spaces _)
    · cases hc

@[scoped spec] theorem reset_full :
    ⦃fun s => ⌜s.BuffersFull⌝⦄ reset ⦃post⟨fun _ s => ⌜s.BuffersFull⌝, fun _ s => ⌜s.BuffersFull⌝⟩⦄ := by
  have hflush := withCache_full flush_full
  mvcgen [reset, hflush]

@[scoped spec] theorem peekCell_full (n : Int) :
    ⦃fun s => ⌜s.BuffersFull⌝⦄ peekCell n ⦃post⟨fun _ s => ⌜s.BuffersFull⌝, fun _ s => ⌜s.BuffersFull⌝⟩⦄ := by
  mvcgen [peekCell]

@[scoped spec] theorem flushOutput_full :
    ⦃fun s => ⌜s.BuffersFull⌝⦄ flushOutput ⦃post⟨fun _ s => ⌜s.BuffersFull⌝, fun _ s => ⌜s.BuffersFull⌝⟩⦄ := by
  mvcgen [flushOutput]

/-- An operation that keeps the buffers full keeps them so from the state its run started in. -/
theorem buffersFull_run {α : Type} {x : Vm α}
    (hx : ⦃fun s => ⌜s.BuffersFull⌝⦄ x ⦃post⟨fun _ s => ⌜s.BuffersFull⌝, fun _ s => ⌜s.BuffersFull⌝⟩⦄)
    {s : Machine} (h : s.BuffersFull) : (Vm.ended (x.run s)).BuffersFull :=
  EStateM.of_wp_run_eq rfl (fun res => (Vm.ended res).BuffersFull) fun _ => hx s h

end Buffers

/-! ## Lines, host calls and sessions -/

/-- Whether the buffers are full is a question about the cache alone. -/
theorem Machine.BuffersFull.of_cache {m m' : Machine} (h : m.BuffersFull)
    (hc : m'.cache = m.cache) : m'.BuffersFull :=
  fun c h' => h c (hc ▸ h')

@[simp] theorem Machine.cache_note (m : Machine) (mark : String) (message : Bytes) :
    (m.note mark message).cache = m.cache := by
  obtain ⟨t, ht⟩ := m.note_eq mark message
  rw [ht]

@[simp] theorem Machine.cache_noteAbort (m : Machine) (e : MachineError) :
    (m.noteAbort e).cache = m.cache := by
  obtain ⟨t, ht⟩ := m.noteAbort_eq e
  rw [ht]

@[simp] theorem Machine.cache_noteFlushFailure (m : Machine) :
    m.noteFlushFailure.cache = m.cache := by
  obtain ⟨t, ht⟩ := m.noteFlushFailure_eq
  rw [ht]

@[simp] theorem Machine.cache_recover (m : Machine) (e : MachineError) :
    (m.recover e).1.cache = m.cache := by
  obtain ⟨t, ht⟩ := m.recover_state e
  rw [ht]

@[simp] theorem Machine.cache_lineStart (m : Machine) (line : Bytes) :
    (m.lineStart line).cache = m.cache := by
  simp only [Machine.lineStart, Machine.cache_note]

/-- A line keeps the buffers full, whether it faults or not. -/
theorem Machine.BuffersFull.processLineWithin {m : Machine} (h : m.BuffersFull)
    (limit : StepLimit) (line : Bytes) : (m.processLineWithin limit line).1.BuffersFull := by
  have hs : (m.lineStart line).BuffersFull := h.of_cache (m.cache_lineStart line)
  have hrun := Buffers.buffersFull_run (Buffers.interpret_full limit (line.length + 1)) hs
  simp only [Machine.processLineWithin, Machine.lineStart_def]
  split
  · rename_i hok
    rw [hok] at hrun
    split <;> exact hrun
  · rename_i e mf herr
    rw [herr] at hrun
    -- the recovery and the trace notes around it leave the cache alone
    refine hrun.of_cache ?_
    simp only [Machine.cache_noteFlushFailure, Machine.cache_recover, Machine.cache_noteAbort,
      Vm.ended_error]

/-- Every host call keeps the buffers full, whatever it answers. -/
theorem Machine.BuffersFull.perform {m : Machine} (h : m.BuffersFull) (c : HostCall) :
    (m.perform c).BuffersFull := by
  cases c with
  | line bs => exact h.processLineWithin _ bs
  | reset => exact Buffers.buffersFull_run Buffers.reset_full h
  | push v => exact Buffers.buffersFull_run (Buffers.push_full .data v) h
  | pop => exact Buffers.buffersFull_run (Buffers.pop_full .data) h
  | peek n => exact Buffers.buffersFull_run (Buffers.peekCell_full n) h
  | load a => exact Buffers.buffersFull_run (Buffers.loadData_full a) h
  | store a v => exact Buffers.buffersFull_run (Buffers.storData_full a v) h
  | flush => exact Buffers.buffersFull_run Buffers.flushOutput_full h

/-- A session keeps the buffers full, call after call. -/
theorem Machine.BuffersFull.performAll {m : Machine} (h : m.BuffersFull) (calls : List HostCall) :
    (m.performAll calls).BuffersFull := by
  induction calls generalizing m with
  | nil => exact h
  | cons c calls ih => exact ih (h.perform c)

/-- A created machine's buffers are full, whether its layout succeeded or not: the blank machine
has no cache, and the layout makes its cache of two blocks of spaces. -/
theorem Machine.buffersFull_create (n : Nat) (s : Settings) : (Machine.create n s).1.BuffersFull := by
  have hb : (Machine.blank n s).BuffersFull := fun _ h => nomatch h
  have h := Buffers.buffersFull_run Buffers.layOut_full hb
  unfold Machine.create
  split <;> rename_i heq <;> rw [heq] at h <;> exact h

/-! ## A failed flush leaves the region alone

The machine stores both buffers back after every cache operation. The buffers a flush starts from
were just read from the region, and a flush keeps them in place: storing them back writes the
region's own bytes, where a block fits, and writes nothing where it does not, since a full buffer
is then too long to store. -/

/-- Two regions of one size with the same bytes are the same. -/
theorem Memory.Region.ext_byteAt {r r' : Region} (hs : r.bytes.size = r'.bytes.size)
    (hb : ∀ j, r.byteAt j = r'.byteAt j) : r = r' := by
  obtain ⟨⟨a⟩⟩ := r
  obtain ⟨⟨a'⟩⟩ := r'
  have ha : a = a' := Array.ext hs fun j h h' => by
    simpa [Region.byteAt_def, h, h'] using hb j
  rw [ha]

/-- Writing back the bytes a slice read leaves the region as it was. -/
theorem Memory.Region.writeAt_slice {r : Region} {a : UInt32} {n : Nat} {bs : List UInt8}
    (h : r.slice a n = .ok bs) : r.writeAt a.toNat bs = r := by
  have hfit := Region.fits_of_slice h
  rw [Region.slice_eq_map r a n hfit, Except.ok.injEq] at h
  subst h
  refine Region.ext_byteAt (Region.size_writeAt _ _ _) fun j => ?_
  by_cases hj : a.toNat ≤ j ∧ j < a.toNat + n
  · rw [Region.byteAt_writeAt_of_mem _ _ _ _ hj.1 (by simpa using hj.2) (by omega)]
    have hk : j - a.toNat < n := by omega
    rw [List.getD_eq_getElem?_getD, List.getElem?_map, List.getElem?_range hk, Option.map_some,
      Option.getD_some, Nat.add_sub_cancel' hj.1]
  · exact Region.byteAt_writeAt_of_not_mem _ _ _ _ (by simp; omega)

/-- Storing a slot reads only its place. -/
theorem Memory.Region.storeSlot_congr (r : Region) {s s' : Slot} (h : s.place = s'.place) :
    r.storeSlot s = r.storeSlot s' := by
  simp only [Slot.place, Prod.mk.injEq] at h
  simp only [Region.storeSlot, h.1, h.2]

/-- Storing back a full slot just read from the region leaves the region as it was. -/
theorem Machine.storeSlot_loadSlot (m : Machine) {s : Slot} (h : s.Full) :
    m.region.storeSlot (m.loadSlot s) = m.region := by
  unfold Machine.loadSlot Region.storeSlot
  split
  · rename_i bs hbs
    -- the block fits: the slot holds the bytes the slice read
    have hb : (⟨bs.toArray⟩ : ByteArray).toList = bs := by
      rw [Memory.ByteArray.toList_eq_data_toList, List.toList_toArray]
    have hfit := Region.fits_of_slice hbs
    rw [hb, Region.length_of_slice hbs, if_neg (by dsimp only; omega)]
    exact Region.writeAt_slice hbs
  · rename_i e hbs
    -- the block runs past the end: a buffer of a block's size is not stored
    have hover := Region.overflows_of_slice hbs
    rw [if_pos]
    rw [Memory.ByteArray.length_toList, h]
    exact hover

/-- A flush that fails on a machine whose buffers are full fails in writing back a block, and
leaves the machine as it was but for the cache and the device. -/
theorem withCache_flush_error {m m' : Machine} {c : Cache} {e : MachineError}
    (hm : m.BuffersFull) (hc : m.cache = some c)
    (h : (withCache Cache.flush).run m = .error e m') :
    ∃ ce st, (Cache.flush : CacheM Disk Unit).run (⟨m.loadSlot c.active, m.loadSlot c.older⟩, m.disk)
        = .error ce st ∧ e = .block ce ∧ m' = { m with cache := some st.1, disk := st.2 } := by
  simp only [withCache, EStateM.run_bind, EStateM.run_get, hc] at h
  have hp := Buffers.cache_run (P := fun c' => c'.places = Cache.places ⟨_, _⟩)
    (Placement.flush_places _) (⟨m.loadSlot c.active, m.loadSlot c.older⟩, m.disk) rfl
  cases hrun : (Cache.flush : CacheM Disk Unit).run (⟨m.loadSlot c.active, m.loadSlot c.older⟩, m.disk) with
  | ok a st =>
    simp only [changeRegion, takeRegion, EStateM.run_bind, EStateM.run_modify,
      EStateM.run_modifyGet, hrun, EStateM.run_pure] at h
    cases h
  | error ce st =>
    rw [hrun] at hp
    simp only [changeRegion, takeRegion, EStateM.run_bind, EStateM.run_modify,
      EStateM.run_modifyGet, hrun] at h
    cases h
    refine ⟨ce, st, rfl, rfl, ?_⟩
    -- both slots are stored back where they were read, with the bytes they were read with
    simp only [Cache.places, Prod.mk.injEq] at hp
    rw [Region.storeSlot_congr _ hp.1, m.storeSlot_loadSlot (hm c hc).1,
      Region.storeSlot_congr _ hp.2, m.storeSlot_loadSlot (hm c hc).2]

end ForthMachine
