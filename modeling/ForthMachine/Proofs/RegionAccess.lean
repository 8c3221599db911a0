import Mathlib
import ForthMachine.Proofs.RegionFrame

/-!
# The region is a little-endian memory

Every access the region offers checks its bytes against the region's length first, and the
end of the range is computed in unbounded arithmetic, so an offset near 2³² never wraps back
into range. An access succeeds exactly when its bytes lie inside the region; a cell access
also needs an offset that is a multiple of four.

A write that succeeds changes its own bytes and no others (`Region.Overwrites`): a cell
written reads back as the value written, its four bytes are the value's base-256 digits,
lowest first, and the same holds of a byte written and of a fill. Counts that leave room
below 2³² are rounded up by `alignUp` to the least multiple of four above them.

The main statement is `region_faithful_memory`.
-/

namespace ForthMachine.Memory

/-! ## Rounding up to a cell -/

theorem le_alignUp (n : UInt32) (h : n.toNat ≤ 2 ^ 32 - 4) : n.toNat ≤ (alignUp n).toNat := by
  rw [alignUp_toNat n (by omega)]
  omega

/-- No multiple of four at or above a count lies below its rounding. -/
theorem alignUp_le_of_mod (n : UInt32) (h : n.toNat ≤ 2 ^ 32 - 4) {m : Nat} (hm : m % 4 = 0)
    (hnm : n.toNat ≤ m) : (alignUp n).toNat ≤ m := by
  rw [alignUp_toNat n (by omega)]
  omega

namespace Region

/-! ## The checks -/

theorem check_eq_ok_iff (r : Region) (a : UInt32) (w : Nat) (acc : Access) :
    r.check a w acc = .ok () ↔ a.toNat + w ≤ r.bytes.size := by
  unfold check
  split
  · simp only [reduceCtorEq, false_iff]
    omega
  · simp only [true_iff]
    omega

theorem checkCell_eq_ok_iff (r : Region) (a : UInt32) (acc : Access) :
    r.checkCell a acc = .ok () ↔ a % 4 = 0 ∧ a.toNat + 4 ≤ r.bytes.size := by
  unfold checkCell
  by_cases ha : a % 4 = 0
  · simp [ha, check_eq_ok_iff]
  · simp [ha]

/-- An access that checks first and then answers succeeds exactly when the check passes. -/
theorem checked_succeeds_iff {α : Type} (c : Except AddrError Unit) (v : α) :
    (∃ x, (c >>= fun _ => pure v : Except AddrError α) = .ok x) ↔ c = .ok () := by
  cases c <;> simp [bind, Except.bind, pure, Except.pure]

/-- An access that checks first and succeeds passed its check and answers as it would. -/
theorem checked_eq_ok {α : Type} {c : Except AddrError Unit} {v x : α}
    (h : (c >>= fun _ => pure v : Except AddrError α) = .ok x) : c = .ok () ∧ v = x := by
  cases c with
  | error e => cases h
  | ok u => exact ⟨rfl, Except.ok.inj h⟩

theorem loadCell_succeeds_iff (r : Region) (a : UInt32) :
    (∃ v, r.loadCell a = .ok v) ↔ a % 4 = 0 ∧ a.toNat + 4 ≤ r.bytes.size :=
  (checked_succeeds_iff _ _).trans (r.checkCell_eq_ok_iff a .load)

theorem storCell_succeeds_iff (r : Region) (a v : UInt32) :
    (∃ r', r.storCell a v = .ok r') ↔ a % 4 = 0 ∧ a.toNat + 4 ≤ r.bytes.size :=
  (checked_succeeds_iff _ _).trans (r.checkCell_eq_ok_iff a .stor)

theorem loadByte_succeeds_iff (r : Region) (a : UInt32) :
    (∃ b, r.loadByte a = .ok b) ↔ a.toNat + 1 ≤ r.bytes.size :=
  (checked_succeeds_iff _ _).trans (r.check_eq_ok_iff a 1 .load)

theorem storByte_succeeds_iff (r : Region) (a : UInt32) (b : UInt8) :
    (∃ r', r.storByte a b = .ok r') ↔ a.toNat + 1 ≤ r.bytes.size :=
  (checked_succeeds_iff _ _).trans (r.check_eq_ok_iff a 1 .stor)

theorem slice_succeeds_iff (r : Region) (a : UInt32) (n : Nat) :
    (∃ bs, r.slice a n = .ok bs) ↔ a.toNat + n ≤ r.bytes.size :=
  (checked_succeeds_iff _ _).trans (r.check_eq_ok_iff a n .slice)

theorem fill_succeeds_iff (r : Region) (a : UInt32) (n : Nat) (b : UInt8) :
    (∃ r', r.fill a n b = .ok r') ↔ a.toNat + n ≤ r.bytes.size :=
  (checked_succeeds_iff _ _).trans (r.check_eq_ok_iff a n .slice)

/-- The length the region reports is its number of bytes, when that is below 2³². -/
theorem len_toNat (r : Region) (h : r.bytes.size < 2 ^ 32) : r.len.toNat = r.bytes.size := by
  simp only [len, Nat.toUInt32, UInt32.toNat_ofNat']
  exact Nat.mod_eq_of_lt h

/-- A byte inside the region reads as it is. -/
theorem loadByte_ok {r : Region} {a : UInt32} (h : a.toNat + 1 ≤ r.bytes.size) :
    r.loadByte a = .ok (r.byteAt a.toNat) := by
  show (r.check a 1 .load >>= fun _ => pure _) = _
  rw [(r.check_eq_ok_iff a 1 .load).2 h]
  rfl

/-! ## Writes change their own bytes only -/

/-- `r'` is `r` with the bytes from offset `lo` up to `hi` replaced: it has the same size, the
byte at offset `lo + k` of the range reads as `b k`, and every byte outside the range is as it
was. -/
structure Overwrites (r r' : Region) (lo hi : Nat) (b : Nat → UInt8) : Prop where
  size_eq : r'.bytes.size = r.bytes.size
  written : ∀ a : UInt32, lo ≤ a.toNat → a.toNat < hi → r'.loadByte a = .ok (b (a.toNat - lo))
  kept : ∀ j, j < lo ∨ hi ≤ j → r'.byteAt j = r.byteAt j

/-- Only the bytes of the range matter. -/
theorem Overwrites.congr {r r' : Region} {lo hi : Nat} {b c : Nat → UInt8}
    (h : r.Overwrites r' lo hi b) (hbc : ∀ k, k < hi - lo → b k = c k) :
    r.Overwrites r' lo hi c where
  size_eq := h.size_eq
  written a h₁ h₂ := by rw [h.written a h₁ h₂, hbc _ (by omega)]
  kept := h.kept

/-- Writing bytes that fit the region overwrites their range with them. -/
theorem writeAt_overwrites (r : Region) (i : Nat) (bs : List UInt8)
    (h : i + bs.length ≤ r.bytes.size) :
    r.Overwrites (r.writeAt i bs) i (i + bs.length) (fun k => bs.getD k 0) where
  size_eq := size_writeAt r i bs
  written a h₁ h₂ := by
    rw [loadByte_ok (by rw [size_writeAt]; omega),
      byteAt_writeAt_of_mem r i a.toNat bs h₁ h₂ (by omega)]
  kept j hj := byteAt_writeAt_of_not_mem r i j bs hj

/-- The bytes of a cell are its base-256 digits, lowest first. -/
theorem bytesOfCell_getD (v : UInt32) {k : Nat} (hk : k < 4) :
    (bytesOfCell v).getD k 0 = UInt8.ofNat (v.toNat / 256 ^ k) := by
  apply UInt8.toNat_inj.mp
  interval_cases k <;> simp [bytesOfCell, UInt32.toNat_shiftRight, Nat.shiftRight_eq_div_pow]

theorem fillAt_eq_writeAt (r : Region) (i : Nat) (b : UInt8) (n : Nat) :
    r.fillAt i b n = r.writeAt i (List.replicate n b) := by
  induction n generalizing r i with
  | zero => rfl
  | succ n ih => simp only [fillAt, ih, List.replicate_succ, writeAt]

/-- A cell write that succeeds reads back as the value written, and overwrites the cell's
four bytes with the value's base-256 digits, lowest first. -/
theorem storCell_overwrites {r r' : Region} {a v : UInt32} (h : r.storCell a v = .ok r') :
    r'.loadCell a = .ok v ∧
      r.Overwrites r' a.toNat (a.toNat + 4) (fun k => UInt8.ofNat (v.toNat / 256 ^ k)) := by
  obtain ⟨ha, hfit⟩ := (r.storCell_succeeds_iff a v).1 ⟨r', h⟩
  obtain rfl := storCell_eq h
  refine ⟨loadCell_writeAt_self r a v ha hfit, ?_⟩
  exact (writeAt_overwrites r a.toNat (bytesOfCell v) hfit).congr fun k hk =>
    bytesOfCell_getD v (by rw [length_bytesOfCell] at hk; omega)

/-- A byte write that succeeds overwrites that byte alone. -/
theorem storByte_overwrites {r r' : Region} {a : UInt32} {b : UInt8}
    (h : r.storByte a b = .ok r') : r.Overwrites r' a.toNat (a.toNat + 1) (fun _ => b) := by
  have hfit := (r.storByte_succeeds_iff a b).1 ⟨r', h⟩
  obtain rfl := storByte_eq h
  exact (writeAt_overwrites r a.toNat [b] hfit).congr fun k hk => by
    obtain rfl : k = 0 := by rw [List.length_singleton] at hk; omega
    rfl

/-- A fill that succeeds overwrites its bytes, and only those, with the byte given. -/
theorem fill_overwrites {r r' : Region} {a : UInt32} {n : Nat} {b : UInt8}
    (h : r.fill a n b = .ok r') : r.Overwrites r' a.toNat (a.toNat + n) (fun _ => b) := by
  have hfit := (r.fill_succeeds_iff a n b).1 ⟨r', h⟩
  obtain rfl := (checked_eq_ok h).2
  rw [fillAt_eq_writeAt]
  have hw := writeAt_overwrites r a.toNat (List.replicate n b) (by simpa using hfit)
  rw [List.length_replicate] at hw
  exact hw.congr fun k hk => by simp [List.getD_eq_getElem?_getD, show k < n by omega]

end Region

/-! ## The memory -/

/-- The region is a faithful little-endian memory. A region made for `n` bytes holds `n`
rounded down to whole cells, and reports its byte count as its length. Cell accesses succeed
exactly at offsets that are multiples of four and whose four bytes fit; byte accesses, slices
and fills exactly when their bytes fit, the end never wrapping at 2³². A cell written reads
back as written, its bytes are the value's base-256 digits, lowest first, and every other byte
is as it was; likewise for a byte written and a fill. A count with room below 2³² is rounded
up to the least multiple of four at or above it. -/
theorem region_faithful_memory :
    (∀ n, (Region.zeroed n).bytes.size = n / 4 * 4) ∧
    (∀ r : Region, r.bytes.size < 2 ^ 32 → r.len.toNat = r.bytes.size) ∧
    (∀ (r : Region) a, (∃ v, r.loadCell a = .ok v) ↔ a % 4 = 0 ∧ a.toNat + 4 ≤ r.bytes.size) ∧
    (∀ (r : Region) a v,
      (∃ r', r.storCell a v = .ok r') ↔ a % 4 = 0 ∧ a.toNat + 4 ≤ r.bytes.size) ∧
    (∀ (r : Region) a, (∃ b, r.loadByte a = .ok b) ↔ a.toNat + 1 ≤ r.bytes.size) ∧
    (∀ (r : Region) a b, (∃ r', r.storByte a b = .ok r') ↔ a.toNat + 1 ≤ r.bytes.size) ∧
    (∀ (r : Region) a n, (∃ bs, r.slice a n = .ok bs) ↔ a.toNat + n ≤ r.bytes.size) ∧
    (∀ (r : Region) a n b, (∃ r', r.fill a n b = .ok r') ↔ a.toNat + n ≤ r.bytes.size) ∧
    (∀ (r r' : Region) a v, r.storCell a v = .ok r' →
      r'.loadCell a = .ok v ∧
        r.Overwrites r' a.toNat (a.toNat + 4) (fun k => UInt8.ofNat (v.toNat / 256 ^ k))) ∧
    (∀ (r r' : Region) a b, r.storByte a b = .ok r' →
      r.Overwrites r' a.toNat (a.toNat + 1) (fun _ => b)) ∧
    (∀ (r r' : Region) a n b, r.fill a n b = .ok r' →
      r.Overwrites r' a.toNat (a.toNat + n) (fun _ => b)) ∧
    (∀ n : UInt32, n.toNat ≤ 2 ^ 32 - 4 →
      (alignUp n).toNat % 4 = 0 ∧ n.toNat ≤ (alignUp n).toNat ∧
        ∀ m, m % 4 = 0 → n.toNat ≤ m → (alignUp n).toNat ≤ m) :=
  ⟨Region.size_zeroed, Region.len_toNat, Region.loadCell_succeeds_iff,
    Region.storCell_succeeds_iff, Region.loadByte_succeeds_iff, Region.storByte_succeeds_iff,
    Region.slice_succeeds_iff, Region.fill_succeeds_iff,
    fun _ _ _ _ h => Region.storCell_overwrites h, fun _ _ _ _ h => Region.storByte_overwrites h,
    fun _ _ _ _ _ h => Region.fill_overwrites h,
    fun n h => ⟨alignUp_toNat_mod n, le_alignUp n h, fun _ hm hnm => alignUp_le_of_mod n h hm hnm⟩⟩

/-- In a region of 16 bytes, the cell `0x04030201` written at offset 4 reads back, its bytes
at 4 to 7 are 1, 2, 3 and 4, the cell before it is untouched; and the last count that rounds
up without wrapping, `2³² - 4`, is its own rounding. -/
theorem cell_bytes_lowest_first :
    ∃ r', (Region.zeroed 16).storCell 4 0x04030201 = .ok r' ∧ r'.loadCell 4 = .ok 0x04030201 ∧
      r'.loadByte 4 = .ok 1 ∧ r'.loadByte 5 = .ok 2 ∧ r'.loadByte 6 = .ok 3 ∧
      r'.loadByte 7 = .ok 4 ∧ r'.byteAt 3 = 0 ∧
      (4294967292 : UInt32).toNat ≤ 2 ^ 32 - 4 ∧ (alignUp 4294967292).toNat = 4294967292 := by
  obtain ⟨-, -, -, -, -, -, -, -, hcell, -, -, halign⟩ := region_faithful_memory
  obtain ⟨r', hr'⟩ : ∃ r', (Region.zeroed 16).storCell 4 0x04030201 = .ok r' := ⟨_, rfl⟩
  obtain ⟨hload, hw⟩ := hcell _ r' 4 0x04030201 hr'
  have htop : (4294967292 : UInt32).toNat ≤ 2 ^ 32 - 4 := by decide
  obtain ⟨-, hge, hleast⟩ := halign 4294967292 htop
  refine ⟨r', hr', hload, hw.written 4 (by decide) (by decide),
    hw.written 5 (by decide) (by decide), hw.written 6 (by decide) (by decide),
    hw.written 7 (by decide) (by decide), ?_, htop, ?_⟩
  · rw [hw.kept 3 (.inl (by decide)), Region.byteAt_zeroed]
  · exact le_antisymm (hleast _ (by decide) le_rfl) hge

end ForthMachine.Memory
