import Mathlib
import ForthMachine.Proofs.PartitionKept

/-!
# A defined word is found by its folded name

`define` folds a name, reserves its cells and a header's two after it at `here`, writes the
name, the link and the flags with the name's length, and makes the header the newest word. A
folded name is at most four bytes for each of the 31 bytes it keeps (`foldName_length_le`),
so the header always fits a region; `define_run` says where each part goes.

Whether the word can be found again depends on the folded name's length alone. A header's name
is read back only when its recorded length is at most 31 bytes (`Machine.lookup_length_le`),
and folding can make a name longer than that: a cut or invalid UTF-8 sequence becomes the
three bytes of U+FFFD. The main statements are `define_run` and `Machine.lookup_length_le`;
what a lookup finds after a word is defined is the subject of the module `NameLookup`.
-/

namespace ForthMachine

open ForthMachine.Text ForthMachine.Memory

/-! ## Folded names -/

namespace Text

theorem decode_length_le (bs : Bytes) : (decode bs).length ≤ bs.length := by
  fun_induction decode bs with
  | case1 bs h => simp
  | case2 bs p rest h ih =>
    have := splitPiece_length h
    simp only [List.length_cons]
    omega

end Text

/-- Folding keeps at most 31 bytes, and each of them becomes at most one scalar of at most four
bytes. -/
theorem foldName_length_le (cs : Bool) (name : Bytes) :
    (foldName cs name).length ≤ 4 * maxNameLen := by
  have ht : (name.take maxNameLen).length ≤ maxNameLen := List.length_take_le _ _
  unfold foldName
  dsimp only
  split
  · omega
  · rw [List.length_flatMap]
    refine le_trans (List.sum_le_card_nsmul _ 4 ?_) ?_
    · intro x hx
      obtain ⟨p, -, rfl⟩ := List.mem_map.mp hx
      cases p <;> exact (encodeScalar_length _).2
    · have := decode_length_le (name.take maxNameLen)
      simp only [List.length_map, smul_eq_mul]
      omega

/-! ## Reading back what was written -/

namespace Memory

theorem ByteArray.toList_loop_eq (b : ByteArray) (i : Nat) (r : List UInt8) :
    ByteArray.toList.loop b i r = r.reverse ++ b.data.toList.drop i := by
  fun_induction ByteArray.toList.loop b i r with
  | case1 i r h ih =>
    rw [ih, List.reverse_cons, List.append_assoc]
    congr 1
    have hi : i < b.data.toList.length := by rw [Array.length_toList]; exact h
    rw [List.drop_eq_getElem_cons hi]
    simp [ByteArray.get!, h]
  | case2 i r h =>
    rw [List.drop_eq_nil_of_le (by simp; omega), List.append_nil]

theorem ByteArray.toList_eq_data_toList (b : ByteArray) : b.toList = b.data.toList := by
  simp [ByteArray.toList, ByteArray.toList_loop_eq]

namespace Region

/-- A slice inside the region reads the bytes at its offsets. -/
theorem slice_eq_map (r : Region) (a : UInt32) (n : Nat) (h : a.toNat + n ≤ r.bytes.size) :
    r.slice a n = .ok ((List.range n).map fun j => r.byteAt (a.toNat + j)) := by
  simp only [slice, check]
  rw [if_neg (by omega)]
  simp only [bind, Except.bind, pure, Except.pure, ByteArray.toList_eq_data_toList, Except.ok.injEq,
    ByteArray.data_extract]
  have hs : r.bytes.size = r.bytes.data.size := rfl
  apply List.ext_getElem
  · simp only [Array.length_toList, Array.size_extract, List.length_map, List.length_range]
    omega
  · intro j h1 h2
    simp only [List.length_map, List.length_range] at h2
    simp only [List.getElem_map, List.getElem_range, Array.getElem_toList, Array.getElem_extract,
      byteAt_def]
    rw [Array.getElem?_eq_getElem (by omega)]
    rfl

/-- A slice whose bytes are those of a list, inside the region, reads that list. -/
theorem slice_of_byteAt {r : Region} {a : UInt32} {bs : List UInt8}
    (h : a.toNat + bs.length ≤ r.bytes.size)
    (hb : ∀ j, j < bs.length → r.byteAt (a.toNat + j) = bs.getD j 0) :
    r.slice a bs.length = .ok bs := by
  rw [slice_eq_map r a _ h, Except.ok.injEq]
  apply List.ext_getElem (by simp)
  intro j h1 h2
  simp only [List.getElem_map, List.getElem_range, hb j h2, List.getD_eq_getElem _ _ h2]

/-- A copy inside the region writes its bytes. -/
theorem copyIn_ok {r : Region} {a : UInt32} {bs : List UInt8}
    (h : a.toNat + bs.length ≤ r.bytes.size) : r.copyIn a bs = .ok (r.writeAt a.toNat bs) := by
  simp only [copyIn, check]
  rw [if_neg (by omega)]
  rfl

end Region

end Memory

/-! ## The cell of flags and length -/

/-- A header's second cell holds the flags in its low byte and the name's length above. -/
theorem headerInfo_toNat (f : UInt8) (n : UInt32) (hn : n.toNat < 256) :
    (f.toUInt32 ||| n <<< 8).toNat = n.toNat * 256 + f.toNat := by
  have hf := f.toNat_lt
  rw [UInt32.toNat_or, UInt32.toNat_shiftLeft, UInt8.toNat_toUInt32]
  simp only [UInt32.reduceToNat, Nat.reduceMod]
  rw [Nat.mod_eq_of_lt (by rw [Nat.shiftLeft_eq]; omega), Nat.or_comm,
    ← Nat.shiftLeft_add_eq_or_of_lt hf, Nat.shiftLeft_eq]

/-- The flags and a length below 256 read back from the cell that packs them. -/
theorem headerInfo_fields (f : UInt8) (n : UInt32) (hn : n.toNat < 256) :
    (f.toUInt32 ||| n <<< 8).toUInt8 = f ∧ ((f.toUInt32 ||| n <<< 8) >>> 8) &&& 0xFF = n := by
  have hf := f.toNat_lt
  have hv := headerInfo_toNat f n hn
  constructor
  · apply UInt8.toNat_inj.mp
    rw [UInt32.toNat_toUInt8, hv]
    omega
  · apply UInt32.toNat_inj.mp
    rw [UInt32.toNat_and, UInt32.toNat_shiftRight, hv]
    simp only [UInt32.reduceToNat, Nat.reduceMod, Nat.shiftRight_eq_div_pow]
    rw [show (255 : Nat) = 2 ^ 8 - 1 from rfl, Nat.and_two_pow_sub_one_eq_mod]
    omega

/-! ## Where `define` puts a header -/

theorem Vm.tryCatch_run {α : Type} (x : Vm α) (h : MachineError → Vm α) (m : Machine) :
    (tryCatch x h).run m = match x.run m with
      | .ok a t => .ok a t
      | .error e t => (h e).run t := by
  simp only [EStateM.run]
  show EStateM.tryCatch x h m = _
  unfold EStateM.tryCatch
  cases x m <;> rfl

/-- The space `define` reserves for a folded name: the name's bytes rounded up to whole cells,
then the header's two cells. -/
theorem header_space {len : Nat} (h : len ≤ 4 * maxNameLen) :
    len.toUInt32.toNat = len ∧ (alignUp len.toUInt32).toNat = (len + 3) / 4 * 4 ∧
      (alignUp (alignUp len.toUInt32 + headerSize)).toNat = (len + 3) / 4 * 4 + 8 := by
  unfold maxNameLen at h
  have hn : len.toUInt32.toNat = len := by
    rw [Nat.toUInt32_eq, UInt32.toNat_ofNat']
    omega
  have hA := alignUp_toNat len.toUInt32 (by omega)
  rw [hn] at hA
  have hA8 : (alignUp len.toUInt32 + headerSize).toNat = (len + 3) / 4 * 4 + 8 := by
    rw [UInt32.toNat_add, hA]
    simp only [headerSize, UInt32.reduceToNat]
    omega
  refine ⟨hn, hA, ?_⟩
  rw [alignUp_toNat _ (by omega), hA8]
  omega

/-- The link and the flags of a header for a folded name of `len` bytes at `here`, below a limit
that leaves room for them, lie past the name's cells without wrapping. -/
theorem header_at {here lim : UInt32} {len : Nat} (hlen : len ≤ 4 * maxNameLen)
    (hroom : here.toNat + (len + 3) / 4 * 4 + 8 ≤ lim.toNat) :
    (here + alignUp len.toUInt32).toNat = here.toNat + (len + 3) / 4 * 4 ∧
      (here + alignUp len.toUInt32 + 4).toNat = here.toNat + (len + 3) / 4 * 4 + 4 := by
  obtain ⟨-, hA, -⟩ := header_space hlen
  have hlim := lim.toNat_lt
  have hh : (here + alignUp len.toUInt32).toNat = here.toNat + (len + 3) / 4 * 4 := by
    rw [UInt32.toNat_add]
    omega
  refine ⟨hh, ?_⟩
  rw [UInt32.toNat_add, hh]
  simp only [UInt32.reduceToNat]
  omega

/-- What `define` needs of a machine to write a header where it means to: `here` on a cell
boundary past the region's first cell, and a dictionary that ends inside the region. -/
structure Machine.DictRoom (m : Machine) : Prop where
  here_pos : 0 < m.here.toNat
  here_aligned : m.here.toNat % 4 = 0
  dictLimit_le : m.dictLimit.toNat ≤ m.region.bytes.size

theorem Machine.Sane.dictRoom {m : Machine} {L : Layout} (h : m.Sane L) : m.DictRoom where
  here_pos := by have : 8 ≤ m.here.toNat := h.here_ge; omega
  here_aligned := h.here_aligned
  dictLimit_le := by
    have hd : m.dictLimit.toNat = L.dictLimit := h.dictLimit
    have hs : m.region.bytes.size = L.size := h.size
    have := L.dictLimit_le
    have := L.fills
    omega

/-- The machine with a header for `name` written at `here` and made the newest word: the
header's cells zeroed, the name in the first of them, then the link to the newest word and
the flags with the name's length; `here` moves past the header. -/
def Machine.addHeader (s : Machine) (name : Bytes) (flags : UInt8) (tr : Array Bytes) :
    Machine :=
  let h := s.here + alignUp name.length.toUInt32
  { s with
    region := (((s.region.fillAt s.here.toNat 0
        (alignUp (alignUp name.length.toUInt32 + headerSize)).toNat).writeAt s.here.toNat
        name).writeAt h.toNat (bytesOfCell s.latest)).writeAt (h + 4).toNat
        (bytesOfCell (flags.toUInt32 ||| name.length.toUInt32 <<< 8)),
    here := s.here + alignUp (alignUp name.length.toUInt32 + headerSize),
    latest := h
    trace := tr }

/-- `define` on a machine with room for a dictionary either finds the dictionary full and
changes nothing, or writes the header for the folded name at `here` and makes it the newest
word. -/
theorem define_run {s : Machine} (hs : s.DictRoom) (name : Bytes) (flags : UInt8) :
    let name' := foldName s.settings.caseSensitive name
    if s.dictLimit.toNat < s.here.toNat + (name'.length + 3) / 4 * 4 + 8 then
      (define name flags).run s = .error (.dictionaryFull name') s
    else ∃ tr, (define name flags).run s =
      .ok (s.here + alignUp name'.length.toUInt32) (s.addHeader name' flags tr) := by
  dsimp only
  have hn := foldName_length_le s.settings.caseSensitive name
  simp only [define, EStateM.run_bind, EStateM.run_get, Vm.tryCatch_run,
    Layout.allocate_run_of_le hs.dictLimit_le]
  generalize foldName s.settings.caseSensitive name = name' at hn ⊢
  obtain ⟨-, -, hk⟩ := header_space hn
  by_cases hroom : s.dictLimit.toNat < s.here.toNat + (name'.length + 3) / 4 * 4 + 8
  · rw [if_pos hroom, if_pos (by omega)]
    rfl
  rw [if_neg hroom, if_neg (by omega)]
  dsimp only
  have hal := hs.here_aligned
  have hlim := hs.dictLimit_le
  -- the name is short, so the header's offsets do not wrap
  obtain ⟨hh, hh4⟩ := header_at hn (Nat.le_of_not_lt hroom)
  rw [copyIn_run, Region.copyIn_ok (by simp only [Region.size_fillAt]; omega)]
  dsimp only
  rw [storCell_run, Region.storCell_ok (by omega)
    (by simp only [Region.size_writeAt, Region.size_fillAt]; omega)]
  dsimp only
  rw [storCell_run, Region.storCell_ok (by omega)
    (by simp only [Region.size_writeAt, Region.size_fillAt]; omega)]
  dsimp only
  simp only [EStateM.run_modify]
  rw [(trace_run _ _ _).choose_spec]
  exact ⟨_, rfl⟩

/-! ## The new header reads back -/

section

variable {s : Machine} {name : Bytes} {flags : UInt8} {tr : Array Bytes}

@[simp] theorem Machine.addHeader_latest :
    (s.addHeader name flags tr).latest = s.here + alignUp name.length.toUInt32 := rfl

@[simp] theorem Machine.addHeader_settings : (s.addHeader name flags tr).settings = s.settings := by
  unfold Machine.addHeader
  rfl

variable (hs : s.DictRoom) (hn : name.length ≤ 4 * maxNameLen)
  (hroom : s.here.toNat + (name.length + 3) / 4 * 4 + 8 ≤ s.dictLimit.toNat)
include hs hn hroom

/-- The cell of flags and length is written last, so both read back. -/
theorem Machine.addHeader_wordInfo :
    (s.addHeader name flags tr).wordInfo? (s.here + alignUp name.length.toUInt32) =
      .ok (flags, name.length.toUInt32) := by
  obtain ⟨hlen, -, -⟩ := header_space hn
  obtain ⟨-, hh4⟩ := header_at hn hroom
  have hal := hs.here_aligned
  have hlim := hs.dictLimit_le
  obtain ⟨hf, hl⟩ := headerInfo_fields flags name.length.toUInt32
    (by unfold maxNameLen at hn; omega)
  simp only [Machine.wordInfo?, Machine.addHeader]
  rw [Region.loadCell_writeAt_self _ _ _ (Region.toNat_mod_four (by omega))
    (by simp only [Region.size_writeAt, Region.size_fillAt]; omega)]
  simp only [bind, Except.bind, pure, Except.pure, hf, hl]

/-- The name lies in the header's first cells, below the link and the flags. -/
theorem Machine.addHeader_slice :
    (s.addHeader name flags tr).region.slice s.here name.length = .ok name := by
  obtain ⟨hh, hh4⟩ := header_at hn hroom
  have hlim := hs.dictLimit_le
  apply Region.slice_of_byteAt
    (by simp only [Machine.addHeader, Region.size_writeAt, Region.size_fillAt]; omega)
  intro j hj
  simp only [Machine.addHeader]
  rw [Region.byteAt_writeAt_of_not_mem _ _ _ _ (.inl (by omega)),
    Region.byteAt_writeAt_of_not_mem _ _ _ _ (.inl (by omega)),
    Region.byteAt_writeAt_of_mem _ _ _ _ (by omega) (by omega)
      (by simp only [Region.size_fillAt]; omega),
    Nat.add_sub_cancel_left]

/-- The header's name reads back when it has at most 31 bytes, and is empty otherwise. -/
theorem Machine.addHeader_wordName :
    (s.addHeader name flags tr).wordName (s.here + alignUp name.length.toUInt32) =
      if name.length ≤ maxNameLen then name else [] := by
  obtain ⟨hlen, -, -⟩ := header_space hn
  obtain ⟨hh, -⟩ := header_at hn hroom
  unfold Machine.wordName
  rw [Machine.addHeader_wordInfo hs hn hroom]
  dsimp only
  -- past 31 bytes the recorded length alone makes the name empty
  by_cases hmax : name.length ≤ maxNameLen
  · rw [if_neg (by simp only [hlen, UInt32.lt_iff_toNat_lt, hh]; simp; omega), if_pos hmax,
      UInt32.add_sub_cancel, hlen, Machine.addHeader_slice hs hn hroom]
  · rw [if_pos (by simp only [hlen]; simp; omega), if_neg hmax]

end

/-! ## Finding the word -/

/-- A lookup finds only a header whose recorded length is the folded name's and whose name
reads back as it, so never a name folded to more than 31 bytes. -/
theorem Machine.lookup_length_le {m : Machine} {name : Bytes} {h : UInt32}
    (hl : m.lookup name = some h) :
    (foldName m.settings.caseSensitive name).length ≤ maxNameLen := by
  unfold Machine.lookup at hl
  have hp := List.find?_some hl
  generalize foldName m.settings.caseSensitive name = name' at hp ⊢
  cases hi : m.wordInfo? h with
  | error e => simp [hi] at hp
  | ok fi =>
    obtain ⟨f, n⟩ := fi
    simp only [hi, Bool.and_eq_true, beq_iff_eq] at hp
    obtain ⟨⟨-, hn⟩, hname⟩ := hp
    unfold Machine.wordName at hname
    rw [hi] at hname
    dsimp only at hname
    split at hname
    · subst hname
      simp [maxNameLen]
    · simp only [Bool.or_eq_true, decide_eq_true_eq, not_or, not_lt] at *
      omega

end ForthMachine
