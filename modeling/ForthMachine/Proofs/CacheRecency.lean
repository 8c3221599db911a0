import Mathlib.Data.List.Induction
import ForthMachine.Proofs.CacheUpdates

/-!
# The block cache keeps the two most recently used blocks

The cache has two slots and keeps them in order of use: the active slot holds the block used
last, the older slot the one to evict next. A `block k` or `buffer k` call that succeeds does
one of three things (`Served`):

* the active slot holds `k`: nothing changes and the device is not called;
* the older slot holds `k`: the two slots trade places, and the device is not called;
* neither does: the older slot is written back if it is dirty and reused for `k`, and the
  active slot becomes the older one. `block` reads `k` into the reused buffer and marks it
  clean; `buffer` only assigns it.

So the device is read exactly on a miss of `block` (`Served.calls`), and over any run of
successful calls that neither flushes nor empties the buffers the slots hold the last two
different blocks used, most recent first, in the two buffers they started with
(`execAll_recent`). The abstract cache is `recent`: the blocks a cache of two that evicts the
least recently used one holds after a sequence of accesses.

The main statement is `block_cache_recency`.
-/

namespace ForthMachine.Block

variable {δ : Type}

/-! ## What a successful access does -/

/-- The device calls a successful write-back of `s` makes: one write of its block and
contents when it is dirty, none otherwise. -/
def Slot.writeBackCalls (s : Slot) : List DeviceCall :=
  if s.state = .dirty then [.write s.idx s.buf true] else []

section Served

variable [BlockDevice δ]

/-- A successful write-back of `s` takes the device from `d` to `d'`: a dirty slot is written
out without failure, any other slot is not written. -/
def Slot.WrittenBack (s : Slot) (d d' : δ) : Prop :=
  if s.state = .dirty then BlockDevice.writeBlock d s.idx s.buf = (d', none) else d' = d

/-- What a successful `block k` (`true`) or `buffer k` (`false`) call does to the cache and its
device, and the buffer address it returns. -/
inductive Served (k : UInt16) : Bool → Cache × δ → UInt32 × Cache × δ → Prop
  /-- The active slot holds `k`: nothing changes. -/
  | active {fetch : Bool} {c : Cache} {d : δ} :
      c.active.holds k → Served k fetch (c, d) (c.active.addr, c, d)
  /-- The older slot holds `k`: the slots trade places. -/
  | older {fetch : Bool} {c : Cache} {d : δ} :
      c.active.holds k = false → c.older.holds k →
        Served k fetch (c, d) (c.older.addr, ⟨c.older, c.active⟩, d)
  /-- Neither holds `k`, for `block`: the older slot is written back and reused, `k` is read
  into its buffer, clean, and the active slot becomes the older. -/
  | fetched {c : Cache} {d d₁ d' : δ} {b : ByteArray} :
      c.active.holds k = false → c.older.holds k = false → c.older.WrittenBack d d₁ →
        BlockDevice.readBlock d₁ k c.older.buf = (d', b, none) →
        Served k true (c, d)
          (c.older.addr, ⟨{ c.older with buf := b, idx := k, state := .clean }, c.active⟩, d')
  /-- Neither holds `k`, for `buffer`: the older slot is written back and assigned `k`
  unread, and the active slot becomes the older. -/
  | assigned {c : Cache} {d d' : δ} :
      c.active.holds k = false → c.older.holds k = false → c.older.WrittenBack d d' →
        Served k false (c, d) (c.older.addr, ⟨{ c.older with idx := k, state := .buffer }, c.active⟩, d')

variable {k : UInt16} {c c' : Cache} {d d₁ d' : δ} {s s₁ : Slot}

/-- A write-back that succeeds is one of the slot's own, and leaves it clean if it was dirty. -/
theorem writeBack_ok (h : writeBack d s = (d₁, .ok s₁)) :
    s.WrittenBack d d₁ ∧ s₁ = { s with state := if s.state = .dirty then .clean else s.state } := by
  by_cases hs : s.state = .dirty
  · rcases hw : BlockDevice.writeBlock d s.idx s.buf with ⟨d₂, _ | reason⟩
    · rw [writeBack_of_written hs hw, Prod.mk.injEq, Except.ok.injEq] at h
      obtain ⟨rfl, rfl⟩ := h
      refine ⟨by rw [Slot.WrittenBack, if_pos hs]; exact hw, ?_⟩
      rw [if_pos hs]
    · rw [writeBack_of_failed hs hw] at h
      simp at h
  · rw [writeBack_of_ne_dirty hs, Prod.mk.injEq, Except.ok.injEq] at h
    obtain ⟨rfl, rfl⟩ := h
    exact ⟨by rw [Slot.WrittenBack, if_neg hs], by rw [if_neg hs]⟩

/-- **`block`.** A `block k` call that succeeds had a device, and did what `Served` says. -/
theorem block_served {dev dev' : Option δ} {addr : UInt32}
    (h : (Cache.block k).run (c, dev) = .ok addr (c', dev')) :
    ∃ d d', dev = some d ∧ dev' = some d' ∧ Served k true (c, d) (addr, c', d') := by
  rcases dev with _ | d
  · rw [block_of_kept makeSpaceFor_none] at h
    cases h
  by_cases h₁ : c.active.holds k
  · rw [block_of_resident (makeSpaceFor_of_holds h₁)] at h
    cases h
    exact ⟨d, d, rfl, rfl, .active h₁⟩
  rw [Bool.not_eq_true] at h₁
  by_cases h₂ : c.older.holds k
  · rw [block_of_resident (makeSpaceFor_of_older_holds h₁ h₂)] at h
    cases h
    exact ⟨d, d, rfl, rfl, .older h₁ h₂⟩
  rw [Bool.not_eq_true] at h₂
  rcases hw : writeBack d c.older with ⟨d₁, e | s₁⟩
  · -- a failed write-back of the evicted slot fails the call
    rw [block_of_kept (makeSpaceFor_of_failed h₁ h₂ hw)] at h
    cases h
  obtain ⟨hwb, rfl⟩ := writeBack_ok hw
  have hs := makeSpaceFor_of_evicted h₁ h₂ hw
  rcases hr : BlockDevice.readBlock d₁ k c.older.buf with ⟨d₂, b, _ | reason⟩
  · rw [block_of_read hs hr] at h
    cases h
    exact ⟨d, d₂, rfl, rfl, .fetched h₁ h₂ hwb hr⟩
  · -- a failed read fails the call
    rw [block_of_read_failed hs hr] at h
    cases h

/-- **`buffer`.** A `buffer k` call that succeeds had a device, and did what `Served` says. -/
theorem buffer_served {dev dev' : Option δ} {addr : UInt32}
    (h : (Cache.buffer k).run (c, dev) = .ok addr (c', dev')) :
    ∃ d d', dev = some d ∧ dev' = some d' ∧ Served k false (c, d) (addr, c', d') := by
  rcases dev with _ | d
  · rw [buffer_of_kept makeSpaceFor_none] at h
    cases h
  by_cases h₁ : c.active.holds k
  · rw [buffer_of_resident (makeSpaceFor_of_holds h₁)] at h
    cases h
    exact ⟨d, d, rfl, rfl, .active h₁⟩
  rw [Bool.not_eq_true] at h₁
  by_cases h₂ : c.older.holds k
  · rw [buffer_of_resident (makeSpaceFor_of_older_holds h₁ h₂)] at h
    cases h
    exact ⟨d, d, rfl, rfl, .older h₁ h₂⟩
  rw [Bool.not_eq_true] at h₂
  rcases hw : writeBack d c.older with ⟨d₁, e | s₁⟩
  · rw [buffer_of_kept (makeSpaceFor_of_failed h₁ h₂ hw)] at h
    cases h
  obtain ⟨hwb, rfl⟩ := writeBack_ok hw
  rw [buffer_of_fresh (makeSpaceFor_of_evicted h₁ h₂ hw)] at h
  cases h
  exact ⟨d, d₁, rfl, rfl, .assigned h₁ h₂ hwb⟩

end Served

/-! ## The device calls an access makes -/

section Calls

variable [BlockDevice δ] {k : UInt16} {s : Slot} {l l₁ l' : Logged δ}

/-- A write-back over a logged device records exactly its own write. -/
theorem Slot.WrittenBack.record (h : s.WrittenBack l l₁) :
    l₁.calls = l.calls ++ s.writeBackCalls := by
  by_cases hs : s.state = .dirty
  · rw [Slot.WrittenBack, if_pos hs, Logged.writeBlock_def, Prod.mk.injEq] at h
    obtain ⟨rfl, hok⟩ := h
    simp [Slot.writeBackCalls, hs, hok]
  · rw [Slot.WrittenBack, if_neg hs] at h
    rw [h, Slot.writeBackCalls, if_neg hs, List.append_nil]

theorem not_read_mem_writeBackCalls (j : UInt16) (ok : Bool) :
    DeviceCall.read j ok ∉ s.writeBackCalls := by
  unfold Slot.writeBackCalls
  split <;> simp

/-- **Reads happen on misses of `block` only.** Over a logged device, a successful access
records no call when a slot held the block, and records a read exactly when it was `block`
and neither slot held it. -/
theorem Served.calls {fetch : Bool} {c c' : Cache} {addr : UInt32}
    (h : Served k fetch (c, l) (addr, c', l')) :
    ∃ made, l'.calls = l.calls ++ made ∧
      (c.active.holds k ∨ c.older.holds k → made = []) ∧
      ((∃ j ok, DeviceCall.read j ok ∈ made) ↔
        fetch = true ∧ c.active.holds k = false ∧ c.older.holds k = false) := by
  cases h with
  | active h₁ => exact ⟨[], by simp, fun _ => rfl, by simp [h₁]⟩
  | older h₁ h₂ => exact ⟨[], by simp, fun _ => rfl, by simp [h₂]⟩
  | fetched h₁ h₂ hwb hr =>
    refine ⟨c.older.writeBackCalls ++ [.read k true], ?_, by simp [h₁, h₂], ?_⟩
    · simp only [Logged.readBlock_def, Prod.mk.injEq] at hr
      obtain ⟨rfl, -, hnone⟩ := hr
      rw [hwb.record, List.append_assoc]
      simp [hnone]
    · simp only [h₁, h₂, and_self, iff_true]
      exact ⟨k, true, by simp⟩
  | assigned h₁ h₂ hwb =>
    refine ⟨c.older.writeBackCalls, hwb.record, by simp [h₁, h₂], ?_⟩
    simp only [Bool.false_eq_true, false_and, iff_false, not_exists]
    exact not_read_mem_writeBackCalls

end Calls

/-! ## The abstract cache -/

/-- One access of block `k` to a cache of two that evicts the least recently used block,
whose blocks are `rs`, most recent first. -/
def touch (k : UInt16) (rs : List UInt16) : List UInt16 := (k :: rs.erase k).take 2

/-- The blocks such a cache holds after the accesses `ks`, oldest access first, starting
empty. -/
def recent (ks : List UInt16) : List UInt16 := ks.foldl (fun rs k => touch k rs) []

/-- The slots hold `rs` in order: the active slot the first block, the older slot the
second. -/
def Cache.Holds (c : Cache) : List UInt16 → Prop
  | [] => True
  | [k] => c.active.holds k
  | k :: j :: _ => c.active.holds k ∧ c.older.holds j

theorem touch_cons (k a : UInt16) (rs : List UInt16) :
    touch k (a :: rs) = if k = a then (a :: rs).take 2 else [k, a] := by
  unfold touch
  by_cases h : k = a
  · subst h
    simp
  · rw [if_neg h, List.erase_cons_tail (by simpa using Ne.symm h)]
    rfl

/-- **The abstract cache holds the last two blocks used.** After accesses ending in `k`, it
holds `k` and then the last block used before that is not `k`, if there is one. -/
theorem recent_concat (ks : List UInt16) (k : UInt16) :
    recent (ks ++ [k]) = k :: (ks.reverse.find? (· != k)).toList := by
  induction ks using List.reverseRecOn generalizing k with
  | nil => rfl
  | append_singleton ks j ih =>
    have hstep : recent (ks ++ [j] ++ [k]) = touch k (recent (ks ++ [j])) := by
      simp [recent, List.foldl_append]
    rw [hstep, ih, touch_cons, List.reverse_append, List.reverse_singleton, List.singleton_append,
      List.find?_cons]
    by_cases hkj : k = j
    · -- the same block again: the order stays, and holds at most two blocks
      subst hkj
      have hlen : (k :: (ks.reverse.find? (· != k)).toList).length ≤ 2 := by
        cases ks.reverse.find? (· != k) <;> simp
      rw [if_pos rfl, List.take_of_length_le hlen]
      simp
    · -- another block: the block before it comes second
      have hb : (j != k) = true := bne_iff_ne.mpr (Ne.symm hkj)
      rw [if_neg hkj, hb]
      rfl

theorem Cache.holds_take (c : Cache) (rs : List UInt16) : c.Holds (rs.take 2) ↔ c.Holds rs := by
  rcases rs with _ | ⟨a, _ | ⟨b, _ | ⟨_, rs⟩⟩⟩ <;> rfl

theorem Cache.holds_cons_toList {c : Cache} {k : UInt16} {o : Option UInt16} :
    c.Holds (k :: o.toList) ↔ c.active.holds k ∧ ∀ j, o = some j → c.older.holds j := by
  cases o <;> simp [Cache.Holds]

/-- Slots that hold the same blocks as those of `c` hold what `c` holds. -/
theorem Cache.Holds.of_same {c c' : Cache} (ha : ∀ j, c'.active.holds j = c.active.holds j)
    (ho : ∀ j, c'.older.holds j = c.older.holds j) {rs : List UInt16} (h : c.Holds rs) :
    c'.Holds rs := by
  rcases rs with _ | ⟨a, _ | ⟨b, _⟩⟩
  · trivial
  · exact (ha a).trans h
  · exact ⟨(ha a).trans h.1, (ho b).trans h.2⟩

/-- A slot that holds a block holds no other. -/
theorem Slot.eq_of_holds {s : Slot} {k j : UInt16} (hk : s.holds k) (hj : s.holds j) : k = j :=
  (Slot.holds_iff.mp hk).2.symm.trans (Slot.holds_iff.mp hj).2

/-- Marking the active slot updated keeps the block it holds. -/
theorem Cache.update_holds (c : Cache) (j : UInt16) : c.update.active.holds j = c.active.holds j := by
  unfold Cache.update
  cases h : c.active.state <;> simp only [Slot.holds, h] <;> rfl

theorem Cache.update_older (c : Cache) : c.update.older = c.older := by
  unfold Cache.update
  cases c.active.state <;> rfl

theorem Cache.update_addr (c : Cache) : c.update.active.addr = c.active.addr := by
  unfold Cache.update
  cases c.active.state <;> rfl

/-- An access that did not fail succeeded. -/
theorem CacheM.outcome_eq_ok {α : Type} {r : EStateM.Result CacheError (Cache × Option δ) α}
    {s : Cache × Option δ} (h : CacheM.outcome r = (false, s)) : ∃ a, r = .ok a s := by
  cases r with
  | ok a t => exact ⟨a, by simp only [CacheM.outcome_ok, Prod.mk.injEq] at h; rw [h.2]⟩
  | error e t => simp at h

/-! ## Recency over a run -/

/-- The block a call asks for, if it is `block` or `buffer`. -/
def CacheCall.accessed : CacheCall → Option UInt16
  | .block k | .buffer k => some k
  | _ => none

/-- Whether a call empties the slots. -/
def CacheCall.empties : CacheCall → Bool
  | .flush | .emptyBuffers => true
  | _ => false

section Run

variable [BlockDevice δ]

/-- Every call of a sequence succeeds, each from the state the one before left. -/
def CacheCall.Succeeds (s : Cache × Option δ) : List CacheCall → Prop
  | [] => True
  | call :: calls => (call.exec s).1 = false ∧ Succeeds (call.exec s).2 calls

variable {k : UInt16} {fetch : Bool} {c c' : Cache} {d d' : δ} {addr : UInt32}

/-- **One access.** An access moves the slots' order as one access of the abstract cache:
the block comes first, and the block that was first, if another, second. -/
theorem Served.holds_touch (h : Served k fetch (c, d) (addr, c', d')) {rs : List UInt16}
    (hrs : c.Holds rs) : c'.Holds (touch k rs) := by
  have hk : c'.active.holds k := by
    cases h with
    | active h₁ => exact h₁
    | older _ h₂ => exact h₂
    | fetched => simp [Slot.holds]
    | assigned => simp [Slot.holds]
  rcases rs with _ | ⟨a, rs⟩
  · exact hk
  · have ha : c.active.holds a := by
      cases rs with
      | nil => exact hrs
      | cons _ _ => exact hrs.1
    rw [touch_cons]
    by_cases hka : k = a
    · -- the block used last is used again: the active slot held it
      subst hka
      rw [if_pos rfl, Cache.holds_take]
      cases h with
      | active => exact hrs
      | older h₁ => exact absurd ha (by simp [h₁])
      | fetched h₁ => exact absurd ha (by simp [h₁])
      | assigned h₁ => exact absurd ha (by simp [h₁])
    · -- another block: the one used last moves to the older slot
      rw [if_neg hka]
      refine ⟨hk, ?_⟩
      cases h with
      | active h₁ => exact absurd (Slot.eq_of_holds h₁ ha) hka
      | older => exact ha
      | fetched => exact ha
      | assigned => exact ha

/-- An access keeps the two buffers, in place or swapped. -/
theorem Served.addrs (h : Served k fetch (c, d) (addr, c', d')) :
    [c'.active.addr, c'.older.addr].Perm [c.active.addr, c.older.addr] := by
  cases h with
  | active => exact .refl _
  | older => exact .swap _ _ _
  | fetched => exact .swap _ _ _
  | assigned => exact .swap _ _ _

/-- **One call.** A successful call that does not empty the slots moves their order as the
abstract cache does, and keeps the two buffers. -/
theorem exec_holds {call : CacheCall} {s : Cache × Option δ} (he : call.empties = false)
    (hok : (call.exec s).1 = false) {rs : List UInt16} (hrs : s.1.Holds rs) :
    (call.exec s).2.1.Holds (call.accessed.elim rs (touch · rs)) ∧
      [(call.exec s).2.1.active.addr, (call.exec s).2.1.older.addr].Perm
        [s.1.active.addr, s.1.older.addr] := by
  obtain ⟨c, dev⟩ := s
  cases call with
  | block k =>
    obtain ⟨a, ha⟩ := CacheM.outcome_eq_ok (Prod.ext hok rfl)
    obtain ⟨d, d', -, -, hs⟩ := block_served ha
    exact ⟨hs.holds_touch hrs, hs.addrs⟩
  | buffer k =>
    obtain ⟨a, ha⟩ := CacheM.outcome_eq_ok (Prod.ext hok rfl)
    obtain ⟨d, d', -, -, hs⟩ := buffer_served ha
    exact ⟨hs.holds_touch hrs, hs.addrs⟩
  | update =>
    refine ⟨hrs.of_same c.update_holds (fun j => by rw [c.update_older]), ?_⟩
    simp only [CacheCall.exec, c.update_addr, c.update_older]
    exact .refl _
  | write a b =>
    -- a program's stores change the buffers' contents only
    exact ⟨hrs.of_same (fun _ => rfl) (fun _ => rfl), .refl _⟩
  | flush | emptyBuffers => cases he

/-- **Over a run.** Along a run of successful calls that never empties the slots, the slots
follow the abstract cache through the blocks the calls ask for, and keep their buffers. -/
theorem execAll_holds (s : Cache × Option δ) (calls : List CacheCall)
    (he : ∀ call ∈ calls, call.empties = false) (hok : CacheCall.Succeeds s calls)
    {rs : List UInt16} (hrs : s.1.Holds rs) :
    (CacheCall.execAll s calls).1.Holds
        ((calls.filterMap CacheCall.accessed).foldl (fun rs k => touch k rs) rs) ∧
      [(CacheCall.execAll s calls).1.active.addr, (CacheCall.execAll s calls).1.older.addr].Perm
        [s.1.active.addr, s.1.older.addr] := by
  induction calls generalizing s rs with
  | nil => exact ⟨hrs, .refl _⟩
  | cons call calls ih =>
    obtain ⟨hok₁, hok₂⟩ := hok
    have hstep := exec_holds (he call (.head _)) hok₁ hrs
    obtain ⟨hh, hp⟩ := ih (call.exec s).2 (fun c hc => he c (.tail _ hc)) hok₂ hstep.1
    refine ⟨?_, hp.trans hstep.2⟩
    rw [CacheCall.execAll_cons]
    -- the abstract cache takes this call's block, if it asks for one, before the rest
    cases h : call.accessed with
    | none => simpa [List.filterMap_cons, h] using hh
    | some k => simpa [List.filterMap_cons, h] using hh

/-- After a run of successful calls that never empties the slots, the active slot holds the
last block asked for, and the older slot the last other block asked for before it. -/
theorem execAll_recent (s : Cache × Option δ) (calls : List CacheCall)
    (he : ∀ call ∈ calls, call.empties = false) (hok : CacheCall.Succeeds s calls)
    {pre : List UInt16} {k : UInt16} (hks : calls.filterMap CacheCall.accessed = pre ++ [k]) :
    (CacheCall.execAll s calls).1.active.holds k ∧
      ∀ j, pre.reverse.find? (· != k) = some j → (CacheCall.execAll s calls).1.older.holds j := by
  have h := (execAll_holds s calls he hok (show s.1.Holds [] from trivial)).1
  rw [hks, ← recent, recent_concat] at h
  exact Cache.holds_cons_toList.mp h

/-- **The cache is a recency-ordered cache of two.** A successful `block k` or `buffer k` call
does what `Served` says: over a logged device it calls nothing when a slot held `k`, and a
read happens exactly when it is `block` and neither slot held `k`. Over any run of successful
calls that never empties the slots, the active slot holds the last block asked for and the
older slot the last other one, in the two buffers the slots started with. -/
theorem block_cache_recency :
    (∀ (k : UInt16) (c c' : Cache) (dev dev' : Option (Logged δ)) (addr : UInt32),
      (Cache.block k).run (c, dev) = .ok addr (c', dev') →
        ∃ l l', dev = some l ∧ dev' = some l' ∧ Served k true (c, l) (addr, c', l') ∧
          ∃ made, l'.calls = l.calls ++ made ∧ (c.active.holds k ∨ c.older.holds k → made = []) ∧
            ((∃ j ok, DeviceCall.read j ok ∈ made) ↔
              c.active.holds k = false ∧ c.older.holds k = false)) ∧
    (∀ (k : UInt16) (c c' : Cache) (dev dev' : Option (Logged δ)) (addr : UInt32),
      (Cache.buffer k).run (c, dev) = .ok addr (c', dev') →
        ∃ l l', dev = some l ∧ dev' = some l' ∧ Served k false (c, l) (addr, c', l') ∧
          ∃ made, l'.calls = l.calls ++ made ∧ (c.active.holds k ∨ c.older.holds k → made = []) ∧
            ∀ j ok, DeviceCall.read j ok ∉ made) ∧
    ∀ (s : Cache × Option δ) (calls : List CacheCall), (∀ call ∈ calls, call.empties = false) →
      CacheCall.Succeeds s calls →
        [(CacheCall.execAll s calls).1.active.addr, (CacheCall.execAll s calls).1.older.addr].Perm
          [s.1.active.addr, s.1.older.addr] ∧
        ∀ pre k, calls.filterMap CacheCall.accessed = pre ++ [k] →
          (CacheCall.execAll s calls).1.active.holds k ∧
            ∀ j, pre.reverse.find? (· != k) = some j → (CacheCall.execAll s calls).1.older.holds j := by
  refine ⟨fun k c c' dev dev' addr h => ?_, fun k c c' dev dev' addr h => ?_,
    fun s calls he hok => ⟨(execAll_holds s calls he hok (show s.1.Holds [] from trivial)).2,
      fun pre k hks => execAll_recent s calls he hok hks⟩⟩
  · obtain ⟨l, l', hl, hl', hs⟩ := block_served h
    obtain ⟨made, hmade, hnone, hread⟩ := hs.calls
    refine ⟨l, l', hl, hl', hs, made, hmade, hnone, ?_⟩
    simpa using hread
  · obtain ⟨l, l', hl, hl', hs⟩ := buffer_served h
    obtain ⟨made, hmade, hnone, hread⟩ := hs.calls
    refine ⟨l, l', hl, hl', hs, made, hmade, hnone, fun j ok hm => ?_⟩
    simpa using hread.mp ⟨j, ok, hm⟩

end Run

end ForthMachine.Block
