import Mathlib
import ForthMachine.Machine.Storage

/-!
# What a write to the region changes

The region's writers set bytes one at a time from an offset on, dropping those that fall
past the end. This module says what that does, byte by byte: the bytes written are in place,
every other byte is as it was, and the region keeps its size. A cell read sees only its own
four bytes, so a write that misses them leaves the cell as it was, and a cell written and read
back at the same aligned offset gives the value written (`loadCell_writeAt_self`).
-/

namespace ForthMachine.Memory

open ForthMachine.Block

theorem ByteArray.length_toList_loop (b : ByteArray) (i : Nat) (r : List UInt8) :
    (ByteArray.toList.loop b i r).length = r.length + (b.size - i) := by
  fun_induction ByteArray.toList.loop b i r with
  | case1 i r h ih => simp [ih]; omega
  | case2 i r h => simp; omega

theorem ByteArray.length_toList (b : ByteArray) : b.toList.length = b.size := by
  simp [ByteArray.toList, ByteArray.length_toList_loop]

theorem alignUp_toNat_mod (n : UInt32) : (alignUp n).toNat % 4 = 0 := by
  simp only [alignUp, UInt32.toNat_mul, UInt32.toNat_div, UInt32.toNat_add, UInt32.reduceToNat]
  omega

/-- Rounding up a count that leaves room below 2³² rounds it up to the next multiple of four. -/
theorem alignUp_toNat (n : UInt32) (h : n.toNat + 3 < 4294967296) :
    (alignUp n).toNat = (n.toNat + 3) / 4 * 4 := by
  simp only [alignUp, UInt32.toNat_mul, UInt32.toNat_div, UInt32.toNat_add, UInt32.reduceToNat]
  omega

namespace Region

theorem byteAt_def (r : Region) (j : Nat) : r.byteAt j = (r.bytes.data[j]?).getD 0 := rfl

@[simp] theorem size_set (r : Region) (i : Nat) (b : UInt8) :
    (⟨r.bytes.set! i b⟩ : Region).bytes.size = r.bytes.size :=
  Array.size_set! _ _ _

theorem byteAt_set (r : Region) (i j : Nat) (b : UInt8) :
    (⟨r.bytes.set! i b⟩ : Region).byteAt j =
      if i = j ∧ j < r.bytes.size then b else r.byteAt j := by
  have h : (r.bytes.set! i b).data = r.bytes.data.set! i b := rfl
  have hs : r.bytes.size = r.bytes.data.size := rfl
  rw [byteAt_def, byteAt_def, h, Array.set!_eq_setIfInBounds, Array.getElem?_setIfInBounds, hs]
  by_cases hij : i = j
  · subst hij
    by_cases hj : i < r.bytes.size <;> simp [hj]
  · simp [hij]

@[simp] theorem size_writeAt (r : Region) (i : Nat) (bs : List UInt8) :
    (r.writeAt i bs).bytes.size = r.bytes.size := by
  induction bs generalizing r i with
  | nil => rfl
  | cons b bs ih => simp [writeAt, ih]

/-- Writing bytes leaves every byte outside them alone. -/
theorem byteAt_writeAt_of_not_mem (r : Region) (i j : Nat) (bs : List UInt8)
    (h : j < i ∨ i + bs.length ≤ j) : (r.writeAt i bs).byteAt j = r.byteAt j := by
  induction bs generalizing r i with
  | nil => rfl
  | cons b bs ih =>
    simp only [List.length_cons] at h
    simp only [writeAt]
    rw [ih _ _ (by omega), byteAt_set, if_neg (by omega)]

/-- Writing bytes puts them in place, where the region has room. -/
theorem byteAt_writeAt_of_mem (r : Region) (i j : Nat) (bs : List UInt8)
    (h₁ : i ≤ j) (h₂ : j < i + bs.length) (h₃ : j < r.bytes.size) :
    (r.writeAt i bs).byteAt j = bs.getD (j - i) 0 := by
  induction bs generalizing r i with
  | nil => simp at h₂; omega
  | cons b bs ih =>
    simp only [writeAt]
    by_cases hij : i = j
    · subst hij
      rw [byteAt_writeAt_of_not_mem _ _ _ _ (.inl (by omega)), byteAt_set, if_pos ⟨rfl, h₃⟩]
      simp
    · simp only [List.length_cons] at h₂
      rw [ih _ _ (by omega) (by omega) (by simpa using h₃)]
      have : j - i = (j - (i + 1)) + 1 := by omega
      simp [this]

@[simp] theorem size_fillAt (r : Region) (i : Nat) (b : UInt8) (n : Nat) :
    (r.fillAt i b n).bytes.size = r.bytes.size := by
  induction n generalizing r i with
  | zero => rfl
  | succ n ih => simp [fillAt, ih]

/-- Filling bytes leaves every byte outside them alone. -/
theorem byteAt_fillAt_of_not_mem (r : Region) (i j : Nat) (b : UInt8) (n : Nat)
    (h : j < i ∨ i + n ≤ j) : (r.fillAt i b n).byteAt j = r.byteAt j := by
  induction n generalizing r i with
  | zero => rfl
  | succ n ih =>
    simp only [fillAt]
    rw [ih _ _ (by omega), byteAt_set, if_neg (by omega)]

@[simp] theorem size_storeSlot (r : Region) (s : Slot) : (r.storeSlot s).bytes.size = r.bytes.size := by
  unfold storeSlot
  split <;> simp

/-- Storing a slot leaves every byte outside its buffer alone. -/
theorem byteAt_storeSlot_of_not_mem (r : Region) (s : Slot) (j : Nat)
    (h : j < s.addr.toNat ∨ s.addr.toNat + s.buf.size ≤ j) :
    (r.storeSlot s).byteAt j = r.byteAt j := by
  unfold storeSlot
  split
  · rfl
  · exact byteAt_writeAt_of_not_mem _ _ _ _ (by rw [ByteArray.length_toList]; exact h)

@[simp] theorem size_zeroed (n : Nat) : (zeroed n).bytes.size = n / 4 * 4 := by
  simp [zeroed, ByteArray.size]

@[simp] theorem byteAt_zeroed (n j : Nat) : (zeroed n).byteAt j = 0 := by
  rw [byteAt_def]
  simp only [zeroed, Array.getElem?_replicate]
  split <;> rfl

/-! ## Cells -/

/-- The four bytes of a cell read back as the cell. -/
theorem cellOfBytes_bytesOfCell (v : UInt32) :
    cellOfBytes v.toUInt8 (v >>> 8).toUInt8 (v >>> 16).toUInt8 (v >>> 24).toUInt8 = v := by
  apply UInt32.toBitVec_inj.mp
  apply BitVec.eq_of_getLsbD_eq
  intro i hi
  simp only [cellOfBytes, UInt32.toBitVec_or, UInt32.toBitVec_shiftLeft, UInt8.toBitVec_toUInt32,
    UInt32.toBitVec_toUInt8, UInt32.toBitVec_shiftRight, BitVec.getLsbD_or, BitVec.getLsbD_setWidth]
  have h8 : (UInt32.toBitVec 8 % 32) = 8#32 := rfl
  have h16 : (UInt32.toBitVec 16 % 32) = 16#32 := rfl
  have h24 : (UInt32.toBitVec 24 % 32) = 24#32 := rfl
  simp only [h8, h16, h24, BitVec.shiftLeft_eq', BitVec.ushiftRight_eq', BitVec.getLsbD_shiftLeft,
    BitVec.getLsbD_ushiftRight, BitVec.getLsbD_setWidth, BitVec.toNat_ofNat]
  norm_num only
  -- each bit of the cell comes from exactly one of its four bytes
  have hs : i - 8 < 32 ∧ i - 16 < 32 ∧ i - 24 < 32 := by omega
  by_cases h1 : i < 8
  · simp [hi, h1, show i < 16 by omega, show i < 24 by omega]
  by_cases h2 : i < 16
  · simp [hi, hs, h1, h2, show i < 24 by omega, show i - 8 < 8 by omega,
      show 8 + (i - 8) = i by omega]
  by_cases h3 : i < 24
  · simp [hi, hs, h1, h2, h3, show ¬ i - 8 < 8 by omega, show i - 16 < 8 by omega,
      show 16 + (i - 16) = i by omega]
  · simp [hi, hs, h1, h2, h3, show ¬ i - 8 < 8 by omega, show ¬ i - 16 < 8 by omega,
      show i - 24 < 8 by omega, show 24 + (i - 24) = i by omega]

@[simp] theorem length_bytesOfCell (v : UInt32) : (bytesOfCell v).length = 4 := rfl

/-- A cell read depends on the region's size and the cell's four bytes only. -/
theorem loadCell_congr {r r' : Region} {a : UInt32} (hs : r'.bytes.size = r.bytes.size)
    (hb : ∀ j, a.toNat ≤ j → j < a.toNat + 4 → r'.byteAt j = r.byteAt j) :
    r'.loadCell a = r.loadCell a := by
  simp only [loadCell, checkCell, check, hs]
  rw [hb _ (by omega) (by omega), hb _ (by omega) (by omega), hb _ (by omega) (by omega),
    hb _ (by omega) (by omega)]

/-- A cell written at an aligned offset inside the region reads back as written. -/
theorem loadCell_writeAt_self (r : Region) (a v : UInt32) (ha : a % 4 = 0)
    (hr : a.toNat + 4 ≤ r.bytes.size) :
    (r.writeAt a.toNat (bytesOfCell v)).loadCell a = .ok v := by
  have hb : ∀ k, k < 4 → (r.writeAt a.toNat (bytesOfCell v)).byteAt (a.toNat + k) =
      (bytesOfCell v).getD k 0 := fun k hk => by
    rw [byteAt_writeAt_of_mem _ _ _ _ (by omega) (by simp; omega) (by omega)]
    simp
  simp only [loadCell, checkCell, check, size_writeAt, ha]
  rw [if_neg (by simp), if_neg (by omega)]
  have h0 := hb 0 (by omega)
  simp only [Nat.add_zero] at h0
  simp only [bind, Except.bind, pure, Except.pure, h0, hb 1 (by omega), hb 2 (by omega),
    hb 3 (by omega)]
  simp [bytesOfCell, cellOfBytes_bytesOfCell]

/-- Writing bytes that miss a cell leaves the cell as it was. -/
theorem loadCell_writeAt_of_disjoint (r : Region) (a : UInt32) (i : Nat) (bs : List UInt8)
    (h : a.toNat + 4 ≤ i ∨ i + bs.length ≤ a.toNat) :
    (r.writeAt i bs).loadCell a = r.loadCell a :=
  loadCell_congr (size_writeAt _ _ _) fun j hj₁ hj₂ =>
    byteAt_writeAt_of_not_mem _ _ _ _ (by omega)

theorem toNat_mod_four {a : UInt32} (h : a.toNat % 4 = 0) : a % 4 = 0 :=
  UInt32.toNat_inj.mp (by simp [UInt32.toNat_mod, h])

/-- A cell access at an aligned offset inside the region passes its checks. -/
theorem checkCell_ok {r : Region} {a : UInt32} (ha : a.toNat % 4 = 0)
    (hr : a.toNat + 4 ≤ r.bytes.size) (acc : Access) : r.checkCell a acc = .ok () := by
  simp only [checkCell, check, toNat_mod_four ha]
  rw [if_neg (by simp), if_neg (by omega)]

/-- A cell write at an aligned offset inside the region writes the cell's four bytes. -/
theorem storCell_ok {r : Region} {a : UInt32} (ha : a.toNat % 4 = 0)
    (hr : a.toNat + 4 ≤ r.bytes.size) (v : UInt32) :
    r.storCell a v = .ok (r.writeAt a.toNat (bytesOfCell v)) := by
  simp only [storCell, checkCell_ok ha hr]
  rfl

/-- A cell read at an aligned offset inside the region succeeds. -/
theorem loadCell_ok {r : Region} {a : UInt32} (ha : a.toNat % 4 = 0)
    (hr : a.toNat + 4 ≤ r.bytes.size) :
    r.loadCell a = .ok (cellOfBytes (r.byteAt a.toNat) (r.byteAt (a.toNat + 1))
      (r.byteAt (a.toNat + 2)) (r.byteAt (a.toNat + 3))) := by
  simp only [loadCell, checkCell_ok ha hr]
  rfl

/-- A cell write that succeeds writes the cell's four bytes. -/
theorem storCell_eq {r r' : Region} {a v : UInt32} (h : r.storCell a v = .ok r') :
    r' = r.writeAt a.toNat (bytesOfCell v) := by
  simp only [storCell] at h
  cases hc : r.checkCell a .stor with
  | ok u => rw [hc] at h; exact (Except.ok.inj h).symm
  | error e => rw [hc] at h; cases h

/-- A byte write that succeeds writes the byte. -/
theorem storByte_eq {r r' : Region} {a : UInt32} {b : UInt8} (h : r.storByte a b = .ok r') :
    r' = r.writeAt a.toNat [b] := by
  simp only [storByte] at h
  cases hc : r.check a 1 .stor with
  | ok u => rw [hc] at h; exact (Except.ok.inj h).symm
  | error e => rw [hc] at h; cases h

/-- A copy that succeeds writes the bytes, all of which fit the region. -/
theorem copyIn_eq {r r' : Region} {a : UInt32} {bs : List UInt8} (h : r.copyIn a bs = .ok r') :
    r' = r.writeAt a.toNat bs ∧ a.toNat + bs.length ≤ r.bytes.size := by
  simp only [copyIn] at h
  cases hc : r.check a bs.length .slice with
  | ok u =>
    rw [hc] at h
    refine ⟨(Except.ok.inj h).symm, ?_⟩
    simp only [check] at hc
    split at hc
    · cases hc
    · omega
  | error e => rw [hc] at h; cases h

end Region


end ForthMachine.Memory
