import ForthMachine.Block.Disk

/-!
# No update to a block is lost

A host drives the block cache with a sequence of calls (`block`, `buffer`, `update`, `flush`,
`empty-buffers`), programs store into the two buffers between the calls, and the device may
fail any read or write. Over every such run the cache is safe:

* the two slots never hold the same block (`Cache.Distinct`);
* a call leaves the two slots in place or swapped, each keeping its buffer, and a slot stops
  being dirty for a block only once a write of that block with the slot's contents succeeded
  during the call, unless the call empties the buffers;
* a call that fails keeps the block of each slot.

A failing call may still have written a dirty slot back and emptied it: `flush` writes back
and empties the active slot before it tries the older one, and `block` writes back the slot
it evicts before it reads. What no call but `empty-buffers` does is drop an update that was
not written.

The writes a call made are told by a record of the device's calls (`Logged`). The record is
a ghost: over a logged device the cache passes through the states it passes through over the
device itself (`execAll_forget`).

The main statement is `cache_keeps_updates`.
-/

namespace ForthMachine.Block

variable {δ : Type}

/-! ## A host's calls -/

/-- A call a host makes on the cache; `write` stands for the stores a program makes into the
two buffers between calls. -/
inductive CacheCall where
  | block (idx : UInt16)
  | buffer (idx : UInt16)
  | update
  | flush
  | emptyBuffers
  | write (active older : ByteArray)

/-- Whether a cache operation failed, and the cache and device it left. -/
def CacheM.outcome {α : Type} :
    EStateM.Result CacheError (Cache × Option δ) α → Bool × Cache × Option δ
  | .ok _ s => (false, s)
  | .error _ s => (true, s)

@[simp] theorem CacheM.outcome_ok {α : Type} (a : α) (s : Cache × Option δ) :
    CacheM.outcome (.ok a s) = (false, s) := rfl

@[simp] theorem CacheM.outcome_error {α : Type} (e : CacheError) (s : Cache × Option δ) :
    CacheM.outcome (.error e s : EStateM.Result CacheError (Cache × Option δ) α) = (true, s) := rfl

section Exec

variable [BlockDevice δ]

/-- Runs a call: whether it failed, and the cache and device it leaves. -/
def CacheCall.exec : CacheCall → Cache × Option δ → Bool × Cache × Option δ
  | .block idx, s => CacheM.outcome ((Cache.block idx).run s)
  | .buffer idx, s => CacheM.outcome ((Cache.buffer idx).run s)
  | .update, (c, d) => (false, c.update, d)
  | .flush, s => CacheM.outcome (Cache.flush.run s)
  | .emptyBuffers, (c, d) => (false, c.emptyBuffers, d)
  | .write a b, (c, d) => (false, ⟨{ c.active with buf := a }, { c.older with buf := b }⟩, d)

/-- The cache and device a sequence of calls leaves, the calls made in order. -/
def CacheCall.execAll (s : Cache × Option δ) (calls : List CacheCall) : Cache × Option δ :=
  calls.foldl (fun s call => (call.exec s).2) s

@[simp] theorem CacheCall.execAll_nil (s : Cache × Option δ) : execAll s [] = s := rfl

@[simp] theorem CacheCall.execAll_cons (s : Cache × Option δ) (call : CacheCall)
    (calls : List CacheCall) : execAll s (call :: calls) = execAll (call.exec s).2 calls := rfl

end Exec

/-! ## A record of the device's calls -/

/-- A call the cache made on its device, and whether the device reported success. -/
inductive DeviceCall where
  | read (idx : UInt16) (ok : Bool)
  | write (idx : UInt16) (buf : ByteArray) (ok : Bool)

/-- A device together with the calls made on it, oldest first. -/
structure Logged (δ : Type) where
  dev : δ
  calls : List DeviceCall

/-- The calls recorded on a cache's device; none without a device. -/
def Logged.record (d : Option (Logged δ)) : List DeviceCall := (d.map Logged.calls).getD []

/-- A cache and logged device, the record dropped. -/
def Logged.forget (s : Cache × Option (Logged δ)) : Cache × Option δ := (s.1, s.2.map Logged.dev)

/-- A result over a logged device, the record dropped. -/
def Logged.forgetResult {α : Type} :
    EStateM.Result CacheError (Cache × Option (Logged δ)) α →
      EStateM.Result CacheError (Cache × Option δ) α
  | .ok a s => .ok a (Logged.forget s)
  | .error e s => .error e (Logged.forget s)

@[simp] theorem Logged.forgetResult_ok {α : Type} (a : α) (s : Cache × Option (Logged δ)) :
    Logged.forgetResult (.ok a s) = .ok a (Logged.forget s) := rfl

@[simp] theorem Logged.forgetResult_error {α : Type} (e : CacheError)
    (s : Cache × Option (Logged δ)) :
    Logged.forgetResult (.error e s : EStateM.Result _ _ α) = .error e (Logged.forget s) := rfl

@[simp] theorem Logged.forget_mk (c : Cache) (dev : Option (Logged δ)) :
    Logged.forget (c, dev) = (c, dev.map Logged.dev) := rfl

section Record

variable [BlockDevice δ]

/-- A logged device reads and writes as the device does, and records each call. -/
instance : BlockDevice (Logged δ) where
  readBlock l idx buf :=
    let r := BlockDevice.readBlock l.dev idx buf
    (⟨r.1, l.calls ++ [.read idx r.2.2.isNone]⟩, r.2.1, r.2.2)
  writeBlock l idx buf :=
    let r := BlockDevice.writeBlock l.dev idx buf
    (⟨r.1, l.calls ++ [.write idx buf r.2.isNone]⟩, r.2)

@[simp] theorem Logged.readBlock_def (l : Logged δ) (idx : UInt16) (buf : ByteArray) :
    BlockDevice.readBlock l idx buf =
      (⟨(BlockDevice.readBlock l.dev idx buf).1,
        l.calls ++ [.read idx (BlockDevice.readBlock l.dev idx buf).2.2.isNone]⟩,
       (BlockDevice.readBlock l.dev idx buf).2.1, (BlockDevice.readBlock l.dev idx buf).2.2) := rfl

@[simp] theorem Logged.writeBlock_def (l : Logged δ) (idx : UInt16) (buf : ByteArray) :
    BlockDevice.writeBlock l idx buf =
      (⟨(BlockDevice.writeBlock l.dev idx buf).1,
        l.calls ++ [.write idx buf (BlockDevice.writeBlock l.dev idx buf).2.isNone]⟩,
       (BlockDevice.writeBlock l.dev idx buf).2) := rfl

end Record

/-! ## What one cache operation does -/

section Runs

variable [BlockDevice δ]

variable {idx : UInt16} {c : Cache} {d d' d₁ d₂ : δ} {s s₁ s₂ : Slot} {e : IOError}

theorem writeBack_of_ne_dirty (h : s.state ≠ .dirty) : writeBack d s = (d, .ok s) := by
  simp only [writeBack, bne_iff_ne, ne_eq, h, not_false_eq_true, ↓reduceIte]

theorem writeBack_of_written (h : s.state = .dirty)
    (hw : BlockDevice.writeBlock d s.idx s.buf = (d', none)) :
    writeBack d s = (d', .ok { s with state := .clean }) := by
  simp only [writeBack, h, bne_self_eq_false, Bool.false_eq_true, ↓reduceIte, hw]

theorem writeBack_of_failed {reason : String} (h : s.state = .dirty)
    (hw : BlockDevice.writeBlock d s.idx s.buf = (d', some reason)) :
    writeBack d s = (d', .error ⟨.write, s.idx, reason⟩) := by
  simp only [writeBack, h, bne_self_eq_false, Bool.false_eq_true, ↓reduceIte, hw]

theorem makeSpaceFor_none :
    (makeSpaceFor idx).run (c, (none : Option δ)) = .error .noDevice (c, none) := by
  simp only [makeSpaceFor, Option.isNone_iff_eq_none, bind_pure_comp, EStateM.run_bind,
    EStateM.run_get, ↓reduceIte, EStateM.run_throw]

theorem makeSpaceFor_of_holds (h : c.active.holds idx) :
    (makeSpaceFor idx).run (c, some d) = .ok false (c, some d) := by
  simp only [makeSpaceFor, Option.isNone_iff_eq_none, bind_pure_comp, EStateM.run_bind,
    EStateM.run_get, reduceCtorEq, ↓reduceIte, h, EStateM.run_pure]

theorem makeSpaceFor_of_older_holds (h₁ : c.active.holds idx = false) (h₂ : c.older.holds idx) :
    (makeSpaceFor idx).run (c, some d) = .ok false (⟨c.older, c.active⟩, some d) := by
  simp only [makeSpaceFor, Option.isNone_iff_eq_none, modifyCache, bind_pure_comp, EStateM.run_bind,
    EStateM.run_get, reduceCtorEq, ↓reduceIte, h₁, Bool.false_eq_true, EStateM.run_modify, h₂,
    EStateM.run_pure]

theorem makeSpaceFor_of_evicted (h₁ : c.active.holds idx = false) (h₂ : c.older.holds idx = false)
    (hw : writeBack d c.older = (d', .ok s)) :
    (makeSpaceFor idx).run (c, some d) =
      .ok true (⟨{ s with state := .empty }, c.active⟩, some d') := by
  simp only [makeSpaceFor, Option.isNone_iff_eq_none, modifyCache, writeBackActive, beq_iff_eq,
    bind_pure_comp, bind_assoc, EStateM.run_bind, EStateM.run_get, reduceCtorEq, ↓reduceIte, h₁,
    Bool.false_eq_true, EStateM.run_modify, h₂, hw, EStateM.run_set]
  rfl

theorem makeSpaceFor_of_failed (h₁ : c.active.holds idx = false) (h₂ : c.older.holds idx = false)
    (hw : writeBack d c.older = (d', .error e)) :
    (makeSpaceFor idx).run (c, some d) = .error (.io e) (⟨c.older, c.active⟩, some d') := by
  simp only [makeSpaceFor, Option.isNone_iff_eq_none, modifyCache, writeBackActive, beq_iff_eq,
    bind_pure_comp, bind_assoc, EStateM.run_bind, EStateM.run_get, reduceCtorEq, ↓reduceIte, h₁,
    Bool.false_eq_true, EStateM.run_modify, h₂, hw, EStateM.run_set, EStateM.run_throw]

variable {st st' : Cache × Option δ}

theorem block_of_kept {err : CacheError} (h : (makeSpaceFor idx).run st = .error err st') :
    (Cache.block idx).run st = .error err st' := by
  simp only [Cache.block, bind_pure_comp, EStateM.run_bind, h]

theorem block_of_resident (h : (makeSpaceFor idx).run st = .ok false st') :
    (Cache.block idx).run st = .ok st'.1.active.addr st' := by
  simp only [Cache.block, EStateM.run_bind, h]
  rfl

theorem block_of_no_device (h : (makeSpaceFor idx).run st = .ok true (c, none)) :
    (Cache.block idx).run st = .error .noDevice (c, none) := by
  simp only [Cache.block, bind_pure_comp, EStateM.run_bind, h, ↓reduceIte, EStateM.run_get,
    EStateM.run_throw]

theorem block_of_read {b : ByteArray} (h : (makeSpaceFor idx).run st = .ok true (c, some d))
    (hr : BlockDevice.readBlock d idx c.active.buf = (d', b, none)) :
    (Cache.block idx).run st =
      .ok c.active.addr
        (⟨{ c.active with buf := b, idx := idx, state := .clean }, c.older⟩, some d') := by
  simp only [Cache.block, bind_pure_comp, EStateM.run_bind, h, ↓reduceIte, EStateM.run_get, hr,
    EStateM.run_set]
  rfl

theorem block_of_read_failed {b : ByteArray} {reason : String}
    (h : (makeSpaceFor idx).run st = .ok true (c, some d))
    (hr : BlockDevice.readBlock d idx c.active.buf = (d', b, some reason)) :
    (Cache.block idx).run st =
      .error (.io ⟨.read, idx, reason⟩)
        (⟨{ c.active with buf := b, state := .empty }, c.older⟩, some d') := by
  simp only [Cache.block, bind_pure_comp, EStateM.run_bind, h, ↓reduceIte, EStateM.run_get, hr,
    EStateM.run_set, EStateM.run_throw]

theorem buffer_of_kept {err : CacheError} (h : (makeSpaceFor idx).run st = .error err st') :
    (Cache.buffer idx).run st = .error err st' := by
  simp only [Cache.buffer, bind_pure_comp, EStateM.run_bind, h]

theorem buffer_of_resident (h : (makeSpaceFor idx).run st = .ok false st') :
    (Cache.buffer idx).run st = .ok st'.1.active.addr st' := by
  simp only [Cache.buffer, EStateM.run_bind, h]
  rfl

theorem buffer_of_fresh {dev : Option δ} (h : (makeSpaceFor idx).run st = .ok true (c, dev)) :
    (Cache.buffer idx).run st =
      .ok c.active.addr (⟨{ c.active with idx := idx, state := .buffer }, c.older⟩, dev) := by
  simp only [Cache.buffer, modifyCache, bind_pure_comp, EStateM.run_bind, h, ↓reduceIte,
    EStateM.run_modify]
  rfl

theorem flush_none_of_active (h : c.active.state = .dirty) :
    Cache.flush.run (c, (none : Option δ)) = .error .noDevice (c, none) := by
  simp only [Cache.flush, writeBackActive, beq_iff_eq, bind_assoc, EStateM.run_bind,
    EStateM.run_get, h, ↓reduceIte, EStateM.run_throw]

theorem flush_none_of_older (h₁ : c.active.state ≠ .dirty) (h₂ : c.older.state = .dirty) :
    Cache.flush.run (c, (none : Option δ)) =
      .error .noDevice (⟨{ c.active with state := .empty }, c.older⟩, none) := by
  simp only [Cache.flush, writeBackActive, beq_iff_eq, modifyCache, writeBackOlder, bind_assoc,
    EStateM.run_bind, EStateM.run_get, h₁, ↓reduceIte, pure_bind, EStateM.run_modify, h₂,
    EStateM.run_throw]

theorem flush_none (h₁ : c.active.state ≠ .dirty) (h₂ : c.older.state ≠ .dirty) :
    Cache.flush.run (c, (none : Option δ)) = .ok () (c.emptyBuffers, none) := by
  simp only [Cache.flush, writeBackActive, beq_iff_eq, modifyCache, writeBackOlder, bind_assoc,
    EStateM.run_bind, EStateM.run_get, h₁, ↓reduceIte, pure_bind, EStateM.run_modify, h₂,
    EStateM.Result.ok.injEq, Prod.mk.injEq, and_true, true_and]
  rfl

theorem flush_of_active_failed (hw : writeBack d c.active = (d', .error e)) :
    Cache.flush.run (c, some d) = .error (.io e) (c, some d') := by
  simp only [Cache.flush, writeBackActive, beq_iff_eq, bind_assoc, EStateM.run_bind,
    EStateM.run_get, hw, EStateM.run_set, EStateM.run_throw]

theorem flush_of_older_failed (hw₁ : writeBack d c.active = (d₁, .ok s₁))
    (hw₂ : writeBack d₁ c.older = (d₂, .error e)) :
    Cache.flush.run (c, some d) =
      .error (.io e) (⟨{ s₁ with state := .empty }, c.older⟩, some d₂) := by
  simp only [Cache.flush, writeBackActive, beq_iff_eq, modifyCache, writeBackOlder, bind_assoc,
    EStateM.run_bind, EStateM.run_get, hw₁, EStateM.run_set, EStateM.run_modify, hw₂,
    EStateM.run_throw]

theorem flush_of_written (hw₁ : writeBack d c.active = (d₁, .ok s₁))
    (hw₂ : writeBack d₁ c.older = (d₂, .ok s₂)) :
    Cache.flush.run (c, some d) =
      .ok () (⟨{ s₁ with state := .empty }, { s₂ with state := .empty }⟩, some d₂) := by
  simp only [Cache.flush, writeBackActive, beq_iff_eq, modifyCache, writeBackOlder, bind_assoc,
    EStateM.run_bind, EStateM.run_get, hw₁, EStateM.run_set, EStateM.run_modify, hw₂]

end Runs

/-! ## What a call may do to a slot -/

/-- A slot holding block `k`, marked updated. -/
def Slot.DirtyFor (s : Slot) (k : UInt16) : Prop := s.state = .dirty ∧ s.idx = k

/-- The two slots never hold the same block. -/
def Cache.Distinct (c : Cache) : Prop := ∀ k, ¬ (c.active.holds k ∧ c.older.holds k)

/-- `c'` holds the slots of `c`, in place or swapped, each changed as `R` allows. -/
def Cache.Moved (R : Slot → Slot → Prop) (c c' : Cache) : Prop :=
  (R c.active c'.active ∧ R c.older c'.older) ∨ (R c.active c'.older ∧ R c.older c'.active)

/-- How a call may change one slot, given whether it failed and the device calls it made. -/
structure SlotKept (failed : Bool) (made : List DeviceCall) (s s' : Slot) : Prop where
  /-- The slot keeps its buffer. -/
  addr : s'.addr = s.addr
  /-- It stops being dirty for a block only once a write of that block with the slot's
  contents succeeded. -/
  written : ∀ k, s.DirtyFor k → ¬ s'.DirtyFor k → DeviceCall.write k s.buf true ∈ made
  /-- A call that failed keeps its block. -/
  idx : failed = true → s'.idx = s.idx

/-- What a call from `s` guarantees of its outcome `r`: the device's record only grew, by the
calls `made` during the call, and each slot is kept. -/
def CallKept (s : Cache × Option (Logged δ)) (r : Bool × Cache × Option (Logged δ)) : Prop :=
  ∃ made, Logged.record r.2.2 = Logged.record s.2 ++ made ∧ s.1.Moved (SlotKept r.1 made) r.2.1

theorem Slot.holds_iff {s : Slot} {k : UInt16} :
    s.holds k = true ↔ s.state ≠ .empty ∧ s.idx = k := by
  simp [Slot.holds]

namespace SlotKept

variable {f : Bool} {made : List DeviceCall} {s s' : Slot}

/-- A slot that keeps its address and block, and stays dirty if it was, is kept. -/
theorem of_dirty (ha : s'.addr = s.addr) (hi : s'.idx = s.idx)
    (hd : s.state = .dirty → s'.state = .dirty) : SlotKept f made s s' :=
  ⟨ha, fun _ h h' => absurd ⟨hd h.1, hi.trans h.2⟩ h', fun _ => hi⟩

theorem refl (f : Bool) (made : List DeviceCall) (s : Slot) : SlotKept f made s s :=
  of_dirty rfl rfl id

/-- A slot whose contents were written back, when it was dirty, is kept, whatever it
holds afterwards. -/
theorem of_written (ha : s'.addr = s.addr) (hi : f = true → s'.idx = s.idx)
    (hw : s.state = .dirty → DeviceCall.write s.idx s.buf true ∈ made) : SlotKept f made s s' :=
  ⟨ha, fun _ h _ => h.2 ▸ hw h.1, hi⟩

end SlotKept

section Kept

variable {c : Cache} {dev dev' : Option (Logged δ)} {f : Bool} {made : List DeviceCall}

theorem CallKept.same (hm : Logged.record dev' = Logged.record dev ++ made) :
    CallKept (c, dev) (f, c, dev') :=
  ⟨made, hm, .inl ⟨.refl _ _ _, .refl _ _ _⟩⟩

theorem CallKept.swap (hm : Logged.record dev' = Logged.record dev ++ made) :
    CallKept (c, dev) (f, ⟨c.older, c.active⟩, dev') :=
  ⟨made, hm, .inr ⟨.refl _ _ _, .refl _ _ _⟩⟩

theorem Cache.Distinct.swap (h : c.Distinct) : (⟨c.older, c.active⟩ : Cache).Distinct :=
  fun k hk => h k hk.symm

/-- A cache whose older slot does not hold the active slot's block holds two different blocks. -/
theorem Cache.distinct_of_older (h : c.older.holds c.active.idx = false) : c.Distinct := by
  rintro k ⟨ha, ho⟩
  rw [(Slot.holds_iff.1 ha).2] at h
  simp [ho] at h

theorem Cache.distinct_of_active_empty (h : c.active.state = .empty) : c.Distinct := by
  rintro k ⟨ha, -⟩
  exact (Slot.holds_iff.1 ha).1 h

/-- Marking a slot that holds a block dirty changes no block and loses no update. -/
theorem markDirty_safe (hc : c.Distinct) (h : c.active.state ≠ .empty) :
    (⟨{ c.active with state := .dirty }, c.older⟩ : Cache).Distinct ∧
      CallKept (c, dev) (false, ⟨{ c.active with state := .dirty }, c.older⟩, dev) := by
  refine ⟨fun k hk => hc k ⟨?_, hk.2⟩, [], (List.append_nil _).symm,
    .inl ⟨.of_dirty rfl rfl (fun _ => rfl), .refl _ _ _⟩⟩
  simpa [Slot.holds, h] using hk.1

end Kept

/-! ## Each call is safe -/

section WriteBack

variable [BlockDevice δ]

variable {l l' : Logged δ} {s s' : Slot}

/-- A write-back that succeeds gives the slot back with its address, block and contents, and
records a successful write of them when the slot was dirty. -/
theorem writeBack_logged_ok (h : writeBack l s = (l', .ok s')) :
    s'.addr = s.addr ∧ s'.idx = s.idx ∧ s'.buf = s.buf ∧
      ∃ made, l'.calls = l.calls ++ made ∧
        (s.state = .dirty → DeviceCall.write s.idx s.buf true ∈ made) := by
  by_cases hs : s.state = .dirty
  · rcases hw : BlockDevice.writeBlock l.dev s.idx s.buf with ⟨d', _ | reason⟩
    · have hl : BlockDevice.writeBlock l s.idx s.buf =
          (⟨d', l.calls ++ [.write s.idx s.buf true]⟩, none) := by simp [hw]
      rw [writeBack_of_written hs hl] at h
      simp only [Prod.mk.injEq, Except.ok.injEq] at h
      obtain ⟨rfl, rfl⟩ := h
      exact ⟨rfl, rfl, rfl, _, rfl, fun _ => by simp⟩
    · have hl : BlockDevice.writeBlock l s.idx s.buf =
          (⟨d', l.calls ++ [.write s.idx s.buf false]⟩, some reason) := by simp [hw]
      rw [writeBack_of_failed hs hl] at h
      simp at h
  · rw [writeBack_of_ne_dirty hs] at h
    simp only [Prod.mk.injEq, Except.ok.injEq] at h
    obtain ⟨rfl, rfl⟩ := h
    exact ⟨rfl, rfl, rfl, [], by simp, fun h => absurd h hs⟩

/-- A write-back that fails only adds to the record. -/
theorem writeBack_logged_error {e : IOError} (h : writeBack l s = (l', .error e)) :
    ∃ made, l'.calls = l.calls ++ made := by
  by_cases hs : s.state = .dirty
  · rcases hw : BlockDevice.writeBlock l.dev s.idx s.buf with ⟨d', _ | reason⟩
    · have hl : BlockDevice.writeBlock l s.idx s.buf =
          (⟨d', l.calls ++ [.write s.idx s.buf true]⟩, none) := by simp [hw]
      rw [writeBack_of_written hs hl] at h
      simp at h
    · have hl : BlockDevice.writeBlock l s.idx s.buf =
          (⟨d', l.calls ++ [.write s.idx s.buf false]⟩, some reason) := by simp [hw]
      rw [writeBack_of_failed hs hl] at h
      simp only [Prod.mk.injEq] at h
      obtain ⟨rfl, -⟩ := h
      exact ⟨_, rfl⟩
  · rw [writeBack_of_ne_dirty hs] at h
    simp at h

end WriteBack

section Calls

variable [BlockDevice δ]

variable {c : Cache} {idx : UInt16}

theorem block_safe (hc : c.Distinct) (dev : Option (Logged δ)) :
    ((CacheCall.block idx).exec (c, dev)).2.1.Distinct ∧
      CallKept (c, dev) ((CacheCall.block idx).exec (c, dev)) := by
  rcases dev with _ | l
  · rw [CacheCall.exec, block_of_kept makeSpaceFor_none]
    exact ⟨hc, .same (List.append_nil _).symm⟩
  by_cases h₁ : c.active.holds idx
  · rw [CacheCall.exec, block_of_resident (makeSpaceFor_of_holds h₁)]
    exact ⟨hc, .same (List.append_nil _).symm⟩
  rw [Bool.not_eq_true] at h₁
  by_cases h₂ : c.older.holds idx
  · rw [CacheCall.exec, block_of_resident (makeSpaceFor_of_older_holds h₁ h₂)]
    exact ⟨hc.swap, .swap (List.append_nil _).symm⟩
  rw [Bool.not_eq_true] at h₂
  rcases hw : writeBack l c.older with ⟨l₁, e | s₁⟩
  · -- the write-back of the older slot failed, after the slots traded places
    obtain ⟨made, hm⟩ := writeBack_logged_error hw
    rw [CacheCall.exec, block_of_kept (makeSpaceFor_of_failed h₁ h₂ hw), CacheM.outcome_error]
    have hm' : Logged.record (some l₁) = Logged.record (some l) ++ made := by
      simp [Logged.record, hm]
    exact ⟨hc.swap, .swap hm'⟩
  · -- the older slot, written back if dirty, is emptied and read into
    obtain ⟨ha, hi, hb, made, hm, hwr⟩ := writeBack_logged_ok hw
    have hs := makeSpaceFor_of_evicted h₁ h₂ hw
    have hwr' : ∀ extra, c.older.state = .dirty →
        DeviceCall.write c.older.idx c.older.buf true ∈ made ++ extra :=
      fun _ h => List.mem_append_left _ (hwr h)
    rcases hr : BlockDevice.readBlock l₁.dev idx s₁.buf with ⟨d₂, b, _ | reason⟩
    · have hr' : BlockDevice.readBlock l₁ idx ({ s₁ with state := .empty } : Slot).buf =
          (⟨d₂, l₁.calls ++ [.read idx true]⟩, b, none) := by simp [hr]
      rw [CacheCall.exec, block_of_read hs hr', CacheM.outcome_ok]
      refine ⟨Cache.distinct_of_older (by simpa using h₁), made ++ [.read idx true],
        by simp [Logged.record, hm],
        .inr ⟨.refl _ _ _, .of_written (by simpa using ha) (by simp) (hwr' _)⟩⟩
    · have hr' : BlockDevice.readBlock l₁ idx ({ s₁ with state := .empty } : Slot).buf =
          (⟨d₂, l₁.calls ++ [.read idx false]⟩, b, some reason) := by simp [hr]
      rw [CacheCall.exec, block_of_read_failed hs hr', CacheM.outcome_error]
      refine ⟨Cache.distinct_of_active_empty rfl, made ++ [.read idx false],
        by simp [Logged.record, hm],
        .inr ⟨.refl _ _ _, .of_written (by simpa using ha) (by simpa using hi) (hwr' _)⟩⟩

theorem buffer_safe (hc : c.Distinct) (dev : Option (Logged δ)) :
    ((CacheCall.buffer idx).exec (c, dev)).2.1.Distinct ∧
      CallKept (c, dev) ((CacheCall.buffer idx).exec (c, dev)) := by
  rcases dev with _ | l
  · rw [CacheCall.exec, buffer_of_kept makeSpaceFor_none]
    exact ⟨hc, .same (List.append_nil _).symm⟩
  by_cases h₁ : c.active.holds idx
  · rw [CacheCall.exec, buffer_of_resident (makeSpaceFor_of_holds h₁)]
    exact ⟨hc, .same (List.append_nil _).symm⟩
  rw [Bool.not_eq_true] at h₁
  by_cases h₂ : c.older.holds idx
  · rw [CacheCall.exec, buffer_of_resident (makeSpaceFor_of_older_holds h₁ h₂)]
    exact ⟨hc.swap, .swap (List.append_nil _).symm⟩
  rw [Bool.not_eq_true] at h₂
  rcases hw : writeBack l c.older with ⟨l₁, e | s₁⟩
  · -- the write-back of the older slot failed, after the slots traded places
    obtain ⟨made, hm⟩ := writeBack_logged_error hw
    rw [CacheCall.exec, buffer_of_kept (makeSpaceFor_of_failed h₁ h₂ hw), CacheM.outcome_error]
    have hm' : Logged.record (some l₁) = Logged.record (some l) ++ made := by
      simp [Logged.record, hm]
    exact ⟨hc.swap, .swap hm'⟩
  · -- the older slot, written back if dirty, is emptied and assigned the block
    obtain ⟨ha, -, -, made, hm, hwr⟩ := writeBack_logged_ok hw
    rw [CacheCall.exec, buffer_of_fresh (makeSpaceFor_of_evicted h₁ h₂ hw), CacheM.outcome_ok]
    refine ⟨Cache.distinct_of_older (by simpa using h₁), made, by simp [Logged.record, hm],
      .inr ⟨.refl _ _ _, .of_written (by simpa using ha) (by simp) hwr⟩⟩

theorem flush_safe (hc : c.Distinct) (dev : Option (Logged δ)) :
    (CacheCall.flush.exec (c, dev)).2.1.Distinct ∧
      CallKept (c, dev) (CacheCall.flush.exec (c, dev)) := by
  rcases dev with _ | l
  · -- without a device only clean slots can be emptied
    by_cases h₁ : c.active.state = .dirty
    · rw [CacheCall.exec, flush_none_of_active h₁, CacheM.outcome_error]
      exact ⟨hc, .same (List.append_nil _).symm⟩
    by_cases h₂ : c.older.state = .dirty
    · rw [CacheCall.exec, flush_none_of_older h₁ h₂, CacheM.outcome_error]
      exact ⟨Cache.distinct_of_active_empty rfl, [], (List.append_nil _).symm,
        .inl ⟨.of_written rfl (fun _ => rfl) (absurd · h₁), .refl _ _ _⟩⟩
    rw [CacheCall.exec, flush_none h₁ h₂, CacheM.outcome_ok]
    exact ⟨Cache.distinct_of_active_empty rfl, [], (List.append_nil _).symm,
      .inl ⟨.of_written rfl (fun _ => rfl) (absurd · h₁),
        .of_written rfl (fun _ => rfl) (absurd · h₂)⟩⟩
  rcases hw₁ : writeBack l c.active with ⟨l₁, e | s₁⟩
  · obtain ⟨made, hm⟩ := writeBack_logged_error hw₁
    rw [CacheCall.exec, flush_of_active_failed hw₁, CacheM.outcome_error]
    have hm' : Logged.record (some l₁) = Logged.record (some l) ++ made := by
      simp [Logged.record, hm]
    exact ⟨hc, .same hm'⟩
  obtain ⟨ha₁, hi₁, -, made₁, hm₁, hwr₁⟩ := writeBack_logged_ok hw₁
  rcases hw₂ : writeBack l₁ c.older with ⟨l₂, e | s₂⟩
  · -- the active slot was written back and emptied before the older one failed
    obtain ⟨made₂, hm₂⟩ := writeBack_logged_error hw₂
    rw [CacheCall.exec, flush_of_older_failed hw₁ hw₂, CacheM.outcome_error]
    refine ⟨Cache.distinct_of_active_empty rfl, made₁ ++ made₂,
      by simp [Logged.record, hm₁, hm₂],
      .inl ⟨.of_written (by simpa using ha₁) (fun _ => by simpa using hi₁)
        (fun h => List.mem_append_left _ (hwr₁ h)), .refl _ _ _⟩⟩
  · obtain ⟨ha₂, -, -, made₂, hm₂, hwr₂⟩ := writeBack_logged_ok hw₂
    rw [CacheCall.exec, flush_of_written hw₁ hw₂, CacheM.outcome_ok]
    refine ⟨Cache.distinct_of_active_empty rfl, made₁ ++ made₂,
      by simp [Logged.record, hm₁, hm₂],
      .inl ⟨.of_written (by simpa using ha₁) (by simp) (fun h => List.mem_append_left _ (hwr₁ h)),
        .of_written (by simpa using ha₂) (by simp) (fun h => List.mem_append_right _ (hwr₂ h))⟩⟩

/-- `update` only marks a buffer or clean active slot dirty. -/
theorem update_safe (hc : c.Distinct) (dev : Option (Logged δ)) :
    (CacheCall.update.exec (c, dev)).2.1.Distinct ∧
      CallKept (c, dev) (CacheCall.update.exec (c, dev)) := by
  cases h : c.active.state <;> simp only [CacheCall.exec, Cache.update, h]
  · exact ⟨hc, .same (List.append_nil _).symm⟩
  · exact markDirty_safe hc (by simp [h])
  · exact markDirty_safe hc (by simp [h])
  · exact ⟨hc, .same (List.append_nil _).symm⟩

end Calls

/-! ## Over any run -/

section Run

variable [BlockDevice δ]

/-- Every call keeps the two slots' blocks apart, and every call but `empty-buffers` keeps
every slot. -/
theorem exec_safe (call : CacheCall) {c : Cache} (hc : c.Distinct) (dev : Option (Logged δ)) :
    (call.exec (c, dev)).2.1.Distinct ∧
      (call = .emptyBuffers ∨ CallKept (c, dev) (call.exec (c, dev))) := by
  cases call with
  | block idx => exact (block_safe hc dev).imp_right .inr
  | buffer idx => exact (buffer_safe hc dev).imp_right .inr
  | update => exact (update_safe hc dev).imp_right .inr
  | flush => exact (flush_safe hc dev).imp_right .inr
  | emptyBuffers => exact ⟨Cache.distinct_of_active_empty rfl, .inl rfl⟩
  | write a b =>
    -- a program's stores change the buffers' contents and nothing else
    exact ⟨hc, .inr ⟨[], (List.append_nil _).symm,
      .inl ⟨.of_dirty rfl rfl id, .of_dirty rfl rfl id⟩⟩⟩

/-- Over any run from two empty slots, the slots hold different blocks. -/
theorem execAll_distinct (a b : Slot) (dev : Option (Logged δ)) (calls : List CacheCall) :
    (CacheCall.execAll (Cache.new a b, dev) calls).1.Distinct := by
  suffices h : ∀ s : Cache × Option (Logged δ), s.1.Distinct →
      (CacheCall.execAll s calls).1.Distinct from h _ (Cache.distinct_of_active_empty rfl)
  induction calls with
  | nil => exact fun _ h => h
  | cons call calls ih =>
    rintro ⟨c, dev⟩ hc
    exact ih _ (exec_safe call hc dev).1

theorem cache_keeps_updates (a b : Slot) (dev : Option (Logged δ)) (pre : List CacheCall)
    (call : CacheCall) :
    let s := CacheCall.execAll (Cache.new a b, dev) pre
    let r := call.exec s
    s.1.Distinct ∧ r.2.1.Distinct ∧
      (call = .emptyBuffers ∨ ∃ made, Logged.record r.2.2 = Logged.record s.2 ++ made ∧
        s.1.Moved (SlotKept r.1 made) r.2.1) := by
  intro s r
  have hs : s.1.Distinct := execAll_distinct a b dev pre
  exact ⟨hs, exec_safe call hs s.2⟩

end Run

/-! ## The record is a ghost -/

section Forget

variable [BlockDevice δ]

variable {idx : UInt16} {c : Cache} {l l' : Logged δ}

theorem writeBack_forget {s : Slot} {r : Except IOError Slot} (h : writeBack l s = (l', r)) :
    writeBack l.dev s = (l'.dev, r) := by
  by_cases hs : s.state = .dirty
  · rcases hw : BlockDevice.writeBlock l.dev s.idx s.buf with ⟨d', _ | reason⟩
    · have hl : BlockDevice.writeBlock l s.idx s.buf =
          (⟨d', l.calls ++ [.write s.idx s.buf true]⟩, none) := by simp [hw]
      rw [writeBack_of_written hs hl, Prod.mk.injEq] at h
      rw [writeBack_of_written hs hw, ← h.1, ← h.2]
    · have hl : BlockDevice.writeBlock l s.idx s.buf =
          (⟨d', l.calls ++ [.write s.idx s.buf false]⟩, some reason) := by simp [hw]
      rw [writeBack_of_failed hs hl, Prod.mk.injEq] at h
      rw [writeBack_of_failed hs hw, ← h.1, ← h.2]
  · rw [writeBack_of_ne_dirty hs, Prod.mk.injEq] at h
    rw [writeBack_of_ne_dirty hs, ← h.1, ← h.2]

theorem makeSpaceFor_forget (idx : UInt16) (s : Cache × Option (Logged δ)) :
    Logged.forgetResult ((makeSpaceFor idx).run s) = (makeSpaceFor idx).run (Logged.forget s) := by
  obtain ⟨c, _ | l⟩ := s
  · rw [makeSpaceFor_none, Logged.forget_mk, Option.map_none, makeSpaceFor_none]; rfl
  rw [Logged.forget_mk, Option.map_some]
  by_cases h₁ : c.active.holds idx
  · rw [makeSpaceFor_of_holds h₁, makeSpaceFor_of_holds h₁]; rfl
  rw [Bool.not_eq_true] at h₁
  by_cases h₂ : c.older.holds idx
  · rw [makeSpaceFor_of_older_holds h₁ h₂, makeSpaceFor_of_older_holds h₁ h₂]; rfl
  rw [Bool.not_eq_true] at h₂
  rcases hw : writeBack l c.older with ⟨l₁, e | s₁⟩
  · rw [makeSpaceFor_of_failed h₁ h₂ hw, makeSpaceFor_of_failed h₁ h₂ (writeBack_forget hw)]
    rfl
  · rw [makeSpaceFor_of_evicted h₁ h₂ hw, makeSpaceFor_of_evicted h₁ h₂ (writeBack_forget hw)]
    rfl

theorem block_forget (idx : UInt16) (s : Cache × Option (Logged δ)) :
    Logged.forgetResult ((Cache.block idx).run s) = (Cache.block idx).run (Logged.forget s) := by
  have hm := makeSpaceFor_forget idx s
  rcases h : (makeSpaceFor idx).run s with ⟨_ | _, st⟩ | ⟨e, st⟩ <;>
    simp only [h, Logged.forgetResult_ok, Logged.forgetResult_error] at hm
  · rw [block_of_resident h, block_of_resident hm.symm]; rfl
  · obtain ⟨c, _ | l⟩ := st
    · rw [Logged.forget_mk, Option.map_none] at hm
      rw [block_of_no_device h, block_of_no_device hm.symm]; rfl
    rw [Logged.forget_mk, Option.map_some] at hm
    rcases hr : BlockDevice.readBlock l.dev idx c.active.buf with ⟨d₂, b, _ | reason⟩
    · have hr' : BlockDevice.readBlock l idx c.active.buf =
          (⟨d₂, l.calls ++ [.read idx true]⟩, b, none) := by simp [hr]
      rw [block_of_read h hr', block_of_read hm.symm hr]; rfl
    · have hr' : BlockDevice.readBlock l idx c.active.buf =
          (⟨d₂, l.calls ++ [.read idx false]⟩, b, some reason) := by simp [hr]
      rw [block_of_read_failed h hr', block_of_read_failed hm.symm hr]; rfl
  · rw [block_of_kept h, block_of_kept hm.symm]; rfl

theorem buffer_forget (idx : UInt16) (s : Cache × Option (Logged δ)) :
    Logged.forgetResult ((Cache.buffer idx).run s) = (Cache.buffer idx).run (Logged.forget s) := by
  have hm := makeSpaceFor_forget idx s
  rcases h : (makeSpaceFor idx).run s with ⟨_ | _, st⟩ | ⟨e, st⟩ <;>
    simp only [h, Logged.forgetResult_ok, Logged.forgetResult_error] at hm
  · rw [buffer_of_resident h, buffer_of_resident hm.symm]; rfl
  · obtain ⟨c, dev⟩ := st
    rw [Logged.forget_mk] at hm
    rw [buffer_of_fresh h, buffer_of_fresh hm.symm]; rfl
  · rw [buffer_of_kept h, buffer_of_kept hm.symm]; rfl

theorem flush_forget (s : Cache × Option (Logged δ)) :
    Logged.forgetResult (Cache.flush.run s) = Cache.flush.run (Logged.forget s) := by
  obtain ⟨c, _ | l⟩ := s
  · rw [Logged.forget_mk, Option.map_none]
    by_cases h₁ : c.active.state = .dirty
    · rw [flush_none_of_active h₁, flush_none_of_active h₁]; rfl
    by_cases h₂ : c.older.state = .dirty
    · rw [flush_none_of_older h₁ h₂, flush_none_of_older h₁ h₂]; rfl
    · rw [flush_none h₁ h₂, flush_none h₁ h₂]; rfl
  rw [Logged.forget_mk, Option.map_some]
  rcases hw₁ : writeBack l c.active with ⟨l₁, e | s₁⟩
  · rw [flush_of_active_failed hw₁, flush_of_active_failed (writeBack_forget hw₁)]; rfl
  rcases hw₂ : writeBack l₁ c.older with ⟨l₂, e | s₂⟩
  · rw [flush_of_older_failed hw₁ hw₂,
      flush_of_older_failed (writeBack_forget hw₁) (writeBack_forget hw₂)]; rfl
  · rw [flush_of_written hw₁ hw₂,
      flush_of_written (writeBack_forget hw₁) (writeBack_forget hw₂)]; rfl

/-- Over a logged device a call fails or succeeds and leaves the cache and device as over the
device itself. -/
theorem exec_forget (call : CacheCall) (s : Cache × Option (Logged δ)) :
    ((call.exec s).1, Logged.forget (call.exec s).2) = call.exec (Logged.forget s) := by
  have hr : ∀ {α : Type} (r : EStateM.Result CacheError (Cache × Option (Logged δ)) α),
      ((CacheM.outcome r).1, Logged.forget (CacheM.outcome r).2) =
        CacheM.outcome (Logged.forgetResult r) := by
    rintro _ (⟨_, _⟩ | ⟨_, _⟩) <;> rfl
  cases call with
  | block idx => exact (hr _).trans (congrArg _ (block_forget idx s))
  | buffer idx => exact (hr _).trans (congrArg _ (buffer_forget idx s))
  | flush => exact (hr _).trans (congrArg _ (flush_forget s))
  | update | emptyBuffers | write => rfl

/-- Over a logged device a run leaves the cache and device it leaves over the device itself. -/
theorem execAll_forget (s : Cache × Option (Logged δ)) (calls : List CacheCall) :
    Logged.forget (CacheCall.execAll s calls) = CacheCall.execAll (Logged.forget s) calls := by
  induction calls generalizing s with
  | nil => rfl
  | cons call calls ih =>
    rw [CacheCall.execAll_cons, CacheCall.execAll_cons, ih,
      ← congrArg Prod.snd (exec_forget call s)]

end Forget

/-! ## A failing call that wrote back -/

/-- A failing `flush` may already have written back and emptied the active slot: over a device
that fails its second call, with blocks 1 and 2 both updated, `flush` writes block 2 from the
active slot, empties it, and fails on block 1. -/
theorem failed_flush_empties_written_slot :
    let s := CacheCall.execAll
      (Cache.new ⟨100, spaces 4, 0, .empty⟩ ⟨200, spaces 4, 0, .empty⟩,
        some (⟨[], 1, #[]⟩ : PatternDisk))
      [.buffer 1, .update, .buffer 2, .update]
    let r := CacheCall.flush.exec s
    s.1.active.DirtyFor 2 ∧ r.1 = true ∧ r.2.1.active.addr = s.1.active.addr ∧
      r.2.1.active.state = .empty :=
  ⟨⟨rfl, rfl⟩, rfl, rfl, rfl⟩

end ForthMachine.Block
