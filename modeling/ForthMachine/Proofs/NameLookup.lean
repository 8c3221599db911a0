import Mathlib
import ForthMachine.Proofs.DefinedName
import ForthMachine.Proofs.CompiledTokens
import ForthMachine.Proofs.HostCalls
import ForthMachine.Proofs.EncodedText
import ForthMachine.Proofs.StackIsolation

/-!
# Which word a name finds

A lookup walks the dictionary from the newest header and stops at the first one that is not
hidden and whose recorded name is the folded name: it finds the newest visible word of that
name (`Machine.lookup_eq_some_iff`).

Everything that adds to the dictionary writes at or above `here`, above every header's cells
and name, so it leaves the existing dictionary as it was. Each way of adding a word then changes
lookups in one place only:

* `define` makes the new header answer the tokens of its folded name, when that name has at
  most 31 bytes and the word is not hidden, and every other lookup stays as it was
  (`define_lookup`); so a word stays found until a newer visible word has the same folded name;
* `:` defines the word hidden, so no lookup changes while its body is compiled, and `;` reveals
  it (`colon_definition_found`);
* installing a primitive folds its name twice, once to check the room and once in `define`; a
  folded name of at most 31 bytes folds to itself, so the primitive is found by the tokens of
  its name (`install_lookup`).
-/

namespace ForthMachine

open ForthMachine.Text ForthMachine.Memory

/-! ## The newest visible word -/

/-- Whether a header names a folded name: its recorded length is the name's and its name reads
back as it. -/
def Machine.names (m : Machine) (name : Bytes) (h : UInt32) : Bool :=
  match m.wordInfo? h with
  | .error _ => false
  | .ok (_, n) => n.toNat == name.length && m.wordName h == name

/-- Whether a header is hidden from lookups. -/
def Machine.hidden (m : Machine) (h : UInt32) : Bool := hasFlag (m.wordFlags h) flagHidden

/-- Whether a header answers a lookup of a folded name. -/
def Machine.answers (m : Machine) (name : Bytes) (h : UInt32) : Bool :=
  !m.hidden h && m.names name h

theorem Machine.lookup_eq_find (m : Machine) (t : Bytes) :
    m.lookup t = m.headers.find? (m.answers (foldName m.settings.caseSensitive t)) := by
  unfold Machine.lookup
  dsimp only
  congr 1
  funext h
  simp only [Machine.answers, Machine.hidden, Machine.names, Machine.wordFlags]
  cases m.wordInfo? h with
  | error e => simp
  | ok fi =>
    obtain ⟨f, n⟩ := fi
    simp only [Bool.and_assoc]

/-- A lookup finds the header that answers the folded name and that no newer header of the
dictionary answers. -/
theorem Machine.lookup_eq_some_iff (m : Machine) (t : Bytes) (h : UInt32) :
    m.lookup t = some h ↔ m.answers (foldName m.settings.caseSensitive t) h ∧
      ∃ newer older, m.headers = newer ++ h :: older ∧
        ∀ x ∈ newer, m.answers (foldName m.settings.caseSensitive t) x = false := by
  rw [Machine.lookup_eq_find, List.find?_eq_some_iff_append]
  simp

section

variable {m m' : Machine}

/-- Lookups read the region, the newest header and the settings only. -/
theorem Machine.lookup_congr (hr : m'.region = m.region) (hl : m'.latest = m.latest)
    (hs : m'.settings = m.settings) (t : Bytes) : m'.lookup t = m.lookup t := by
  simp only [Machine.lookup, Machine.headers, Machine.wordInfo?, Machine.wordName, hr, hl, hs]

theorem Machine.hidden_congr (hr : m'.region = m.region) (x : UInt32) :
    m'.hidden x = m.hidden x := by
  simp only [Machine.hidden, Machine.wordFlags, Machine.wordInfo?, hr]

theorem Machine.names_congr_region (hr : m'.region = m.region) (name : Bytes) (x : UInt32) :
    m'.names name x = m.names name x := by
  simp only [Machine.names, Machine.wordInfo?, Machine.wordName, hr]

end

/-! ## Writes above the dictionary -/

/-- A region that keeps another's size and its bytes below `lo`. -/
structure Memory.Region.KeptBelow (r r' : Region) (lo : Nat) : Prop where
  size_eq : r'.bytes.size = r.bytes.size
  byteAt_eq : ∀ j, j < lo → r'.byteAt j = r.byteAt j

namespace Memory.Region.KeptBelow

variable {r r' r'' : Region} {lo lo' : Nat}

theorem refl (r : Region) (lo : Nat) : r.KeptBelow r lo := ⟨rfl, fun _ _ => rfl⟩

theorem mono (hk : r.KeptBelow r' lo) (h : lo' ≤ lo) : r.KeptBelow r' lo' :=
  ⟨hk.size_eq, fun j hj => hk.byteAt_eq j (by omega)⟩

theorem trans (hk : r.KeptBelow r' lo) (hk' : r'.KeptBelow r'' lo) : r.KeptBelow r'' lo :=
  ⟨hk'.size_eq.trans hk.size_eq, fun j hj => (hk'.byteAt_eq j hj).trans (hk.byteAt_eq j hj)⟩

theorem loadCell_eq (hk : r.KeptBelow r' lo) {a : UInt32} (ha : a.toNat + 4 ≤ lo) :
    r'.loadCell a = r.loadCell a :=
  loadCell_congr hk.size_eq fun j _ hj => hk.byteAt_eq j (by omega)

/-- Writing bytes at or above `lo` keeps the region below it. -/
theorem writeAt (r : Region) {i : Nat} (bs : List UInt8) (hi : lo ≤ i) :
    r.KeptBelow (r.writeAt i bs) lo :=
  ⟨size_writeAt _ _ _, fun j hj => byteAt_writeAt_of_not_mem _ _ _ _ (.inl (by omega))⟩

theorem fillAt (r : Region) {i : Nat} (b : UInt8) (n : Nat) (hi : lo ≤ i) :
    r.KeptBelow (r.fillAt i b n) lo :=
  ⟨size_fillAt _ _ _ _, fun j hj => byteAt_fillAt_of_not_mem _ _ _ _ _ (.inl (by omega))⟩

end Memory.Region.KeptBelow

/-- A slice depends on the region's size and its own bytes only. -/
theorem Memory.Region.slice_congr {r r' : Region} {a : UInt32} {n : Nat}
    (hs : r'.bytes.size = r.bytes.size)
    (hb : ∀ j, a.toNat ≤ j → j < a.toNat + n → j < r.bytes.size → r'.byteAt j = r.byteAt j) :
    r'.slice a n = r.slice a n := by
  by_cases hfit : a.toNat + n ≤ r.bytes.size
  · rw [Region.slice_eq_map r' a n (hs ▸ hfit), Region.slice_eq_map r a n hfit]
    congr 1
    apply List.map_congr_left
    intro j hj
    simp only [List.mem_range] at hj
    exact hb _ (by omega) (by omega) (by omega)
  · simp only [Region.slice, Region.check, hs]
    rw [if_pos (by omega)]
    rfl

/-- The walk from a header reads only the link cells at or below it. -/
theorem headersFrom_keptBelow {r r' : Region} {lo : Nat} (hk : r.KeptBelow r' lo) :
    ∀ h : UInt32, h.toNat + 4 ≤ lo → headersFrom r' h = headersFrom r h := by
  intro h
  fun_induction headersFrom r h with
  | case1 => intro _; simp [headersFrom]
  | case2 h hne ih =>
    intro hh
    rw [headersFrom, if_neg hne, hk.loadCell_eq hh]
    cases hl : r.loadCell h with
    | error e => rfl
    | ok link =>
      dsimp only
      split
      · rename_i hlt
        have hlt' : link.toNat < h.toNat := UInt32.lt_iff_toNat_lt.mp hlt
        rw [ih link hlt (by omega)]
      · rfl

section

variable {m m' : Machine} {lo : Nat}

/-- The flags and length of a header are read from its second cell. -/
theorem Machine.wordInfo?_keptBelow (hk : m.region.KeptBelow m'.region lo) {x : UInt32}
    (hx : (x + 4).toNat + 4 ≤ lo) : m'.wordInfo? x = m.wordInfo? x := by
  simp only [Machine.wordInfo?, hk.loadCell_eq hx]

/-- A header's name is read from its recorded length and the bytes below it: a read that would
start below address 0 wraps past the end of a region of at most 16 MiB and fails whatever the
bytes. -/
theorem Machine.wordName_keptBelow {x : UInt32} (hk : m.region.KeptBelow m'.region x.toNat)
    (hsize : m.region.bytes.size ≤ maxRegion)
    (hlen : Prod.snd <$> m'.wordInfo? x = Prod.snd <$> m.wordInfo? x) :
    m'.wordName x = m.wordName x := by
  unfold Machine.wordName
  cases hi' : m'.wordInfo? x with
  | error e' =>
    cases hi : m.wordInfo? x with
    | error e => rfl
    | ok fi => rw [hi', hi] at hlen; cases hlen
  | ok fi' =>
    cases hi : m.wordInfo? x with
    | error e => rw [hi', hi] at hlen; cases hlen
    | ok fi =>
      obtain ⟨f', n'⟩ := fi'
      obtain ⟨f, n⟩ := fi
      rw [hi', hi] at hlen
      cases hlen
      dsimp only
      split
      · rfl
      · rename_i hn
        simp only [Bool.or_eq_true, decide_eq_true_eq, not_or, not_lt, gt_iff_lt] at hn
        obtain ⟨hn31, hnx⟩ := hn
        unfold maxNameLen at hn31
        have hal : (alignUp n').toNat = (n'.toNat + 3) / 4 * 4 := alignUp_toNat n' (by omega)
        have hsub := UInt32.toNat_sub x (alignUp n')
        have hle : n'.toNat ≤ x.toNat := by simpa [UInt32.lt_iff_toNat_lt] using hnx
        unfold maxRegion at hsize
        rw [Region.slice_congr hk.size_eq fun j hj₁ hj₂ hj₃ => hk.byteAt_eq j (by omega)]

/-- A header answers a name as before when its cells and name read as before. -/
theorem Machine.answers_congr {x : UInt32} (hinfo : m'.wordInfo? x = m.wordInfo? x)
    (hname : m'.wordName x = m.wordName x) (name : Bytes) :
    m'.answers name x = m.answers name x := by
  simp only [Machine.answers, Machine.hidden, Machine.names, Machine.wordFlags, hinfo, hname]

end

/-- Every header of an ordered dictionary keeps its flags, length and name when the region keeps
its bytes below `here`: the header's two cells and its name lie below it. -/
theorem Machine.Ordered.header_kept {m m' : Machine} (ho : m.Ordered)
    (hsize : m.region.bytes.size ≤ maxRegion) (hk : m.region.KeptBelow m'.region m.here.toNat)
    {x : UInt32} (hx : x ∈ m.headers) :
    m'.wordInfo? x = m.wordInfo? x ∧ m'.wordName x = m.wordName x := by
  obtain ⟨-, hbelow⟩ := ho.header_below hx
  have hx4 : (x + 4).toNat = x.toNat + 4 := by
    rw [UInt32.toNat_add]
    have := m.here.toNat_lt
    simp only [UInt32.reduceToNat]
    omega
  have hinfo := Machine.wordInfo?_keptBelow hk (by omega : (x + 4).toNat + 4 ≤ m.here.toNat)
  exact ⟨hinfo, Machine.wordName_keptBelow (hk.mono (by omega)) hsize (by rw [hinfo])⟩

/-- What writing at or above `here` keeps of a machine: the region below `here`, the newest
header and the settings. -/
structure Machine.KeepsDictionary (m m' : Machine) : Prop where
  region : m.region.KeptBelow m'.region m.here.toNat
  latest : m'.latest = m.latest
  settings : m'.settings = m.settings

namespace Machine.KeepsDictionary

variable {m m' : Machine} (ho : m.Ordered) (hk : m.KeepsDictionary m')
include ho hk

theorem headers_eq : m'.headers = m.headers := by
  unfold Machine.headers
  rw [hk.latest]
  rcases ho.latest with h0 | hbelow
  · simp only [Machine.cursors] at h0
    rw [h0, headersFrom, headersFrom]
    simp
  · simp only [Machine.cursors] at hbelow
    exact headersFrom_keptBelow hk.region _ (by omega)

theorem lookup_eq (hsize : m.region.bytes.size ≤ maxRegion) (t : Bytes) : m'.lookup t = m.lookup t := by
  rw [Machine.lookup_eq_find, Machine.lookup_eq_find, hk.settings, headers_eq ho hk]
  apply List.find?_congr
  intro x hx
  obtain ⟨hinfo, hname⟩ := ho.header_kept hsize hk.region hx
  exact Machine.answers_congr hinfo hname _

theorem words_eq (hsize : m.region.bytes.size ≤ maxRegion) : m'.words = m.words := by
  unfold Machine.words
  rw [headers_eq ho hk]
  apply List.filterMap_congr
  intro x hx
  obtain ⟨hinfo, hname⟩ := ho.header_kept hsize hk.region hx
  rw [hinfo, hname]

end Machine.KeepsDictionary

/-! ## Defining a word -/

section

variable {s : Machine} {name : Bytes} {flags : UInt8} {tr : Array Bytes}
  (hs : s.DictRoom) (hn : name.length ≤ 4 * maxNameLen)
  (hroom : s.here.toNat + (name.length + 3) / 4 * 4 + 8 ≤ s.dictLimit.toNat)
include hs hn hroom

omit hs in
/-- A new header is written at or above `here`. -/
theorem Machine.addHeader_keptBelow :
    s.region.KeptBelow (s.addHeader name flags tr).region s.here.toNat := by
  obtain ⟨hh, hh4⟩ := header_at hn hroom
  simp only [Machine.addHeader]
  exact (((Region.KeptBelow.fillAt _ _ _ le_rfl).trans
    (Region.KeptBelow.writeAt _ _ le_rfl)).trans (Region.KeptBelow.writeAt _ _ (by omega))).trans
    (Region.KeptBelow.writeAt _ _ (by omega))

/-- The new header links to the newest one before it, so the dictionary gains it at its head. -/
theorem Machine.addHeader_headers_eq (ho : s.Ordered) :
    (s.addHeader name flags tr).headers = (s.here + alignUp name.length.toUInt32) :: s.headers := by
  obtain ⟨hh, hh4⟩ := header_at hn hroom
  have hpos := hs.here_pos
  have hal := hs.here_aligned
  have hlim := hs.dictLimit_le
  have hne : s.here + alignUp name.length.toUInt32 ≠ 0 := fun h0 => by
    rw [h0, UInt32.toNat_zero] at hh
    omega
  -- the link cell holds the newest header before it
  have hlink : (s.addHeader name flags tr).region.loadCell (s.here + alignUp name.length.toUInt32) =
      .ok s.latest := by
    simp only [Machine.addHeader]
    rw [Region.loadCell_writeAt_of_disjoint _ _ _ _ (.inl (by omega)),
      Region.loadCell_writeAt_self _ _ _ (Region.toNat_mod_four (by omega))
        (by simp only [Region.size_writeAt, Region.size_fillAt]; omega)]
  rw [Machine.headers, Machine.addHeader_latest, headersFrom, if_neg hne, hlink]
  dsimp only
  have hbelow := ho.latest
  simp only [Machine.cursors] at hbelow
  rcases hbelow with h0 | hbelow
  · simp [Machine.headers, h0, headersFrom]
  · rw [if_pos (UInt32.lt_iff_toNat_lt.mpr (by omega))]
    exact congrArg _ (headersFrom_keptBelow (Machine.addHeader_keptBelow hn hroom) _ (by omega))

/-- The new header names exactly its own name, when that has at most 31 bytes. -/
theorem Machine.addHeader_names (name₀ : Bytes) :
    (s.addHeader name flags tr).names name₀ (s.here + alignUp name.length.toUInt32) =
      (name₀ == name && decide (name.length ≤ maxNameLen)) := by
  have hlen : name.length.toUInt32.toNat = name.length := (header_space hn).1
  simp only [Machine.names, Machine.addHeader_wordInfo hs hn hroom,
    Machine.addHeader_wordName hs hn hroom, hlen]
  by_cases hmax : name.length ≤ maxNameLen
  · rw [if_pos hmax]
    by_cases he : name₀ = name
    · subst he
      simp [hmax]
    · rw [beq_false_of_ne he, beq_false_of_ne (Ne.symm he)]
      simp
  · -- past 31 bytes the name reads back empty, and no name of that length is empty
    rw [if_neg hmax]
    cases name₀ with
    | nil =>
      have h0 : name.length ≠ 0 := by
        unfold maxNameLen at hmax
        omega
      simp [hmax, h0]
    | cons b bs => simp [hmax]

theorem Machine.addHeader_hidden :
    (s.addHeader name flags tr).hidden (s.here + alignUp name.length.toUInt32) =
      hasFlag flags flagHidden := by
  simp only [Machine.hidden, Machine.wordFlags, Machine.addHeader_wordInfo hs hn hroom]

/-- The new header answers exactly its own name, when that has at most 31 bytes and the flags do
not hide it. -/
theorem Machine.addHeader_answers (name₀ : Bytes) :
    (s.addHeader name flags tr).answers name₀ (s.here + alignUp name.length.toUInt32) =
      (!hasFlag flags flagHidden && name₀ == name && decide (name.length ≤ maxNameLen)) := by
  rw [Machine.answers, Machine.addHeader_hidden hs hn hroom, Machine.addHeader_names hs hn hroom,
    Bool.and_assoc]

end

/-- A successful `define` found room below the dictionary's limit and added the header. -/
theorem define_run_ok {s t : Machine} (hs : s.DictRoom) {name : Bytes} {flags : UInt8}
    {h : UInt32} (hrun : (define name flags).run s = .ok h t) :
    ∃ tr, s.here.toNat + ((foldName s.settings.caseSensitive name).length + 3) / 4 * 4 + 8 ≤
        s.dictLimit.toNat ∧
      h = s.here + alignUp (foldName s.settings.caseSensitive name).length.toUInt32 ∧
      t = s.addHeader (foldName s.settings.caseSensitive name) flags tr := by
  have hdef := define_run hs name flags
  dsimp only at hdef
  split at hdef
  · rw [hdef] at hrun
    cases hrun
  rename_i hroom
  obtain ⟨tr, hdef⟩ := hdef
  rw [hdef] at hrun
  cases hrun
  exact ⟨tr, Nat.le_of_not_lt hroom, rfl, rfl⟩

/-- **Defining a word.** On a machine whose dictionary is in order, a successful `define` makes
the new header answer the tokens that fold to its name, when the folded name has at most 31 bytes
and the flags do not hide the word; every other lookup finds what it found before. So a word
stays found until a newer visible word has the same folded name. -/
theorem define_lookup {s t : Machine} (hs : s.DictRoom) (ho : s.Ordered)
    (hsize : s.region.bytes.size ≤ maxRegion) {name : Bytes} {flags : UInt8} {h : UInt32}
    (hrun : (define name flags).run s = .ok h t) (tok : Bytes) :
    t.lookup tok = if hasFlag flags flagHidden = false ∧
        foldName s.settings.caseSensitive tok = foldName s.settings.caseSensitive name ∧
        (foldName s.settings.caseSensitive name).length ≤ maxNameLen
      then some h else s.lookup tok := by
  obtain ⟨tr, hroom, rfl, rfl⟩ := define_run_ok hs hrun
  have hn := foldName_length_le s.settings.caseSensitive name
  generalize foldName s.settings.caseSensitive name = name' at hroom hn ⊢
  -- the older headers answer as before, below the new one
  have hold : ∀ x ∈ s.headers, ∀ n, (s.addHeader name' flags tr).answers n x = s.answers n x :=
    fun x hx n => by
      obtain ⟨hinfo, hname⟩ := ho.header_kept hsize (Machine.addHeader_keptBelow hn hroom) hx
      exact Machine.answers_congr hinfo hname n
  rw [Machine.lookup_eq_find, Machine.lookup_eq_find, Machine.addHeader_settings,
    Machine.addHeader_headers_eq hs hn hroom ho, List.find?_cons,
    Machine.addHeader_answers hs hn hroom, List.find?_congr fun x hx => hold x hx _]
  by_cases hc : hasFlag flags flagHidden = false ∧
      foldName s.settings.caseSensitive tok = name' ∧ name'.length ≤ maxNameLen
  · obtain ⟨h1, h2, h3⟩ := hc
    simp [h1, h2, h3]
  · rw [if_neg hc]
    have hf : (!hasFlag flags flagHidden && foldName s.settings.caseSensitive tok == name' &&
        decide (name'.length ≤ maxNameLen)) = false := by
      simpa using hc
    rw [hf]

/-- A successful `define` lists the new word's name first, or the empty name past 31 bytes,
unless the flags hide it, and then the words listed before. -/
theorem define_words {s t : Machine} (hs : s.DictRoom) (ho : s.Ordered)
    (hsize : s.region.bytes.size ≤ maxRegion) {name : Bytes} {flags : UInt8} {h : UInt32}
    (hrun : (define name flags).run s = .ok h t) :
    t.words = (if hasFlag flags flagHidden then [] else
      [if (foldName s.settings.caseSensitive name).length ≤ maxNameLen
        then foldName s.settings.caseSensitive name else []]) ++ s.words := by
  obtain ⟨tr, hroom, rfl, rfl⟩ := define_run_ok hs hrun
  have hn := foldName_length_le s.settings.caseSensitive name
  generalize foldName s.settings.caseSensitive name = name' at hroom hn ⊢
  rw [Machine.words, Machine.addHeader_headers_eq hs hn hroom ho, List.filterMap_cons,
    Machine.addHeader_wordInfo hs hn hroom, Machine.addHeader_wordName hs hn hroom,
    show List.filterMap _ s.headers = s.words from List.filterMap_congr fun x hx => by
      obtain ⟨hinfo, hname⟩ := ho.header_kept hsize (Machine.addHeader_keptBelow hn hroom) hx
      rw [hinfo, hname]]
  by_cases hf : hasFlag flags flagHidden = true <;> simp [hf]

/-! ## Compiling a body -/

/-- A compiled cell goes to `here`, which moves one cell up. -/
theorem compileCell_keeps {m m' : Machine} {v site : UInt32}
    (h : (compileCell v).run m = .ok site m') :
    m.KeepsDictionary m' ∧ m'.here.toNat = m.here.toNat + 4 ∧ m'.openWord = m.openWord ∧
      m'.dictLimit = m.dictLimit := by
  have h4 : alignUp 4 = 4 := by decide
  simp only [compileCell, EStateM.run_bind, allocate_run_eq, h4] at h
  by_cases hfull : m.dictLimit.toNat < m.here.toNat + (4 : UInt32).toNat
  · simp only [if_pos hfull] at h
    cases h
  simp only [if_neg hfull] at h
  cases hchk : m.region.check m.here (4 : UInt32).toNat .slice with
  | error e => simp only [hchk] at h; cases h
  | ok u =>
    simp only [hchk, storCell_run] at h
    cases hst : (m.region.fillAt m.here.toNat 0 (4 : UInt32).toNat).storCell m.here v with
    | error e => simp only [hst] at h; cases h
    | ok r =>
      simp only [hst, EStateM.run_pure, EStateM.Result.ok.injEq] at h
      obtain ⟨rfl, rfl⟩ := h
      refine ⟨⟨?_, rfl, rfl⟩, ?_, rfl, rfl⟩
      · rw [Region.storCell_eq hst]
        exact (Region.KeptBelow.fillAt _ _ _ le_rfl).trans (Region.KeptBelow.writeAt _ _ le_rfl)
      · have := m.dictLimit.toNat_lt
        simp only [UInt32.reduceToNat] at hfull ⊢
        rw [UInt32.toNat_add]
        simp only [UInt32.reduceToNat]
        omega

/-- A compiled token goes to `here`, which moves one cell up. -/
theorem compileToken_keeps {m m' : Machine} {k : TokenKind} {a site : UInt32}
    (h : (compileToken k a).run m = .ok site m') :
    m.KeepsDictionary m' ∧ m'.here.toNat = m.here.toNat + 4 ∧ m'.openWord = m.openWord ∧
      m'.dictLimit = m.dictLimit := by
  rw [compileToken] at h
  obtain ⟨site₁, m₁, hc, h⟩ := Vm.run_bind_ok h
  obtain ⟨hk, hh, hw, hl⟩ := compileCell_keeps hc
  obtain ⟨t, ht⟩ := trace_run "+" (fun _ => Bytes.ofString ("@" ++ toString site₁.toNat ++ " ") ++
    m₁.tokenText site₁) m₁
  simp only [EStateM.run_bind, EStateM.run_get, ht, EStateM.run_pure, EStateM.Result.ok.injEq] at h
  obtain ⟨rfl, rfl⟩ := h
  exact ⟨⟨hk.region, hk.latest, hk.settings⟩, hh, hw, hl⟩

/-! ## Revealing the newest word -/

/-- Clearing the hidden flag keeps the length recorded beside the flags. -/
theorem clearHidden_length (info : UInt32) :
    ((info &&& ~~~flagHidden.toUInt32) ||| (0 : UInt8).toUInt32) >>> 8 &&& (0xFF : UInt32) =
      info >>> 8 &&& (0xFF : UInt32) := by
  have hc : (~~~flagHidden.toUInt32) >>> 8 &&& 0xFF = (0xFF : UInt32) := by decide
  rw [show (0 : UInt8).toUInt32 = 0 from rfl, UInt32.or_zero, UInt32.shiftRight_and,
    UInt32.and_assoc, hc]

theorem clearHidden_flags (info : UInt32) :
    hasFlag ((info &&& ~~~flagHidden.toUInt32) ||| (0 : UInt8).toUInt32).toUInt8 flagHidden =
      false := by
  have hc : (~~~flagHidden.toUInt32).toUInt8 &&& flagHidden = 0 := by decide
  rw [hasFlag, show (0 : UInt8).toUInt32 = 0 from rfl, UInt32.or_zero, UInt32.toUInt8_and,
    UInt8.and_assoc, hc, UInt8.and_zero]
  rfl

/-- Setting flags reads a header's second cell and writes it back changed. -/
theorem setFlags_run_ok {m m' : Machine} {h : UInt32} {a b : UInt8}
    (hrun : (setFlags h a b).run m = .ok () m') :
    ∃ info, m.region.loadCell (h + 4) = .ok info ∧
      m.region.storCell (h + 4) ((info &&& ~~~b.toUInt32) ||| a.toUInt32) = .ok m'.region ∧
      m' = { m with region := m'.region } := by
  simp only [setFlags, loadCell, Vm.ofRegion, EStateM.run_bind, EStateM.run_get] at hrun
  cases hl : m.region.loadCell (h + 4) with
  | error e =>
    simp only [hl] at hrun
    cases hrun
  | ok info =>
    simp only [hl, EStateM.run_pure, storCell_run] at hrun
    cases hst : m.region.storCell (h + 4) ((info &&& ~~~b.toUInt32) ||| a.toUInt32) with
    | error e => simp [hst] at hrun
    | ok r =>
      simp only [hst, EStateM.Result.ok.injEq] at hrun
      obtain ⟨-, rfl⟩ := hrun
      exact ⟨info, rfl, hst, rfl⟩

theorem Machine.names_congr {m m' : Machine} {x : UInt32}
    (hlen : Prod.snd <$> m'.wordInfo? x = Prod.snd <$> m.wordInfo? x)
    (hname : m'.wordName x = m.wordName x) (name : Bytes) :
    m'.names name x = m.names name x := by
  unfold Machine.names
  cases hi' : m'.wordInfo? x with
  | error e' =>
    cases hi : m.wordInfo? x with
    | error e => rfl
    | ok fi => rw [hi', hi] at hlen; cases hlen
  | ok fi' =>
    cases hi : m.wordInfo? x with
    | error e => rw [hi', hi] at hlen; cases hlen
    | ok fi =>
      obtain ⟨f', n'⟩ := fi'
      obtain ⟨f, n⟩ := fi
      rw [hi', hi] at hlen
      cases hlen
      rw [hname]

/-- Clearing the hidden flag of the newest header keeps the dictionary's headers: every other
header answers as before, and the newest answers every name it names. -/
theorem Machine.Ordered.reveal {m m' : Machine} (ho : m.Ordered)
    (hsize : m.region.bytes.size ≤ maxRegion) (hw : m.latest ≠ 0)
    (hrun : (setFlags m.latest 0 flagHidden).run m = .ok () m') :
    m'.headers = m.headers ∧
      (∀ x ∈ m.headers, x ≠ m.latest → ∀ n, m'.answers n x = m.answers n x) ∧
      ∀ n, m'.answers n m.latest = m.names n m.latest := by
  obtain ⟨info, hl, hst, hm'⟩ := setFlags_run_ok hrun
  have hwrite := Region.storCell_eq hst
  -- the flags cell is aligned, or the write would have failed
  have hal : (m.latest + 4) % 4 = 0 := by
    by_contra hna
    simp [Region.storCell, Region.checkCell, hna] at hst
  have hbelow : m.latest.toNat + 8 ≤ m.here.toNat := by
    rcases ho.latest with h0 | hb
    · exact absurd h0 hw
    · exact hb
  have h4 : (m.latest + 4).toNat = m.latest.toNat + 4 := by
    rw [UInt32.toNat_add]
    have := m.here.toNat_lt
    simp only [UInt32.reduceToNat]
    omega
  have hk : m.region.KeptBelow m'.region (m.latest + 4).toNat :=
    hwrite ▸ Region.KeptBelow.writeAt m.region _ le_rfl
  have hlatest : m'.latest = m.latest := by rw [hm']
  refine ⟨?_, fun x hx hne n => ?_, fun n => ?_⟩
  · unfold Machine.headers
    rw [hlatest]
    exact headersFrom_keptBelow hk _ (by omega)
  · -- an older header's cells lie below the newest header's flags
    have hle : x ≤ m.latest := (headersFrom_lt m.region m.latest).2 x hx
    have hlt : x.toNat < m.latest.toNat := by
      have hle' := UInt32.le_iff_toNat_le.mp hle
      have hne' : x.toNat ≠ m.latest.toNat := fun he => hne (UInt32.toNat_inj.mp he)
      omega
    have hinfo : m'.wordInfo? x = m.wordInfo? x := by
      have hne4 : x + 4 ≠ m.latest + 4 := fun he => hne (by simpa using he)
      simp only [Machine.wordInfo?, hwrite, Region.loadCell_writeAt_other _ _ hal hne4]
    exact Machine.answers_congr hinfo
      (Machine.wordName_keptBelow (hk.mono (by omega)) hsize (by rw [hinfo])) n
  · have hinfo' : m'.wordInfo? m.latest = .ok ((((info &&& ~~~flagHidden.toUInt32) |||
        (0 : UInt8).toUInt32)).toUInt8, ((info &&& ~~~flagHidden.toUInt32) |||
        (0 : UInt8).toUInt32) >>> 8 &&& 0xFF) := by
      simp only [Machine.wordInfo?, Region.loadCell_of_storCell hst]
      rfl
    have hinfo : m.wordInfo? m.latest = .ok (info.toUInt8, info >>> 8 &&& 0xFF) := by
      simp only [Machine.wordInfo?, hl]
      rfl
    have hlen : Prod.snd <$> m'.wordInfo? m.latest = Prod.snd <$> m.wordInfo? m.latest := by
      rw [hinfo', hinfo, clearHidden_length]
      rfl
    have hname := Machine.wordName_keptBelow (hk.mono (by omega)) hsize hlen
    have hnames := Machine.names_congr hlen hname n
    simp only [Machine.answers, Machine.hidden, Machine.wordFlags, hinfo', clearHidden_flags,
      hnames, Bool.not_false, Bool.true_and]

/-- No header further down the walk is the one it started from: the walk only goes down. -/
theorem Machine.ne_of_mem_older {m : Machine} {h : UInt32} {rest : List UInt32}
    (hh : m.headers = h :: rest) : ∀ x ∈ rest, x ≠ h := by
  have hp := (headersFrom_lt m.region m.latest).1
  rw [← Machine.headers, hh, List.pairwise_cons] at hp
  intro x hx he
  have hlt := UInt32.lt_iff_toNat_lt.mp (hp.1 x hx)
  rw [he] at hlt
  exact lt_irrefl _ hlt

/-- Closing a definition with `;` reveals the open word when it is the newest: afterwards a
lookup finds it for every token whose folded name it names, and every other lookup finds what it
found before. -/
theorem endDefinition_lookup {m t : Machine} (ho : m.Ordered)
    (hsize : m.region.bytes.size ≤ maxRegion) (hw : m.openWord ≠ 0) (hlat : m.openWord = m.latest)
    (hhid : m.hidden m.openWord = true) (hrun : endDefinition.run m = .ok () t) (tok : Bytes) :
    t.lookup tok = if m.names (foldName m.settings.caseSensitive tok) m.openWord
      then some m.openWord else m.lookup tok := by
  simp only [endDefinition, EStateM.run_bind, EStateM.run_get] at hrun
  split at hrun
  · simp [EStateM.run_bind, EStateM.run_throw] at hrun
  split at hrun
  · simp [EStateM.run_bind, EStateM.run_throw] at hrun
  simp only [EStateM.run_bind] at hrun
  cases hc : (compileToken .exit 0).run m with
  | error e u => rw [hc] at hrun; cases hrun
  | ok site m₁ =>
  rw [hc] at hrun
  dsimp only at hrun
  cases hf : (setFlags m.openWord 0 flagHidden).run m₁ with
  | error e u => rw [hf] at hrun; cases hrun
  | ok u m₂ =>
  rw [hf] at hrun
  obtain ⟨tr, htr⟩ := trace_run ";" (fun _ => m₂.wordName m.openWord) m₂
  simp only [EStateM.run_get, htr, EStateM.run_modify, EStateM.Result.ok.injEq] at hrun
  obtain ⟨-, rfl⟩ := hrun
  refine (Machine.lookup_congr (m := m₂) rfl rfl rfl tok).trans ?_
  -- compiling the exit keeps the dictionary, and clearing the flag reveals the newest header
  obtain ⟨hk₁, -⟩ := compileToken_keeps hc
  have ho₁ : m₁.Ordered := Cursors.ordered_of_ok (Cursors.compileToken_ordered .exit 0) ho hc
  have hsize₁ : m₁.region.bytes.size ≤ maxRegion := hk₁.region.size_eq ▸ hsize
  rw [hlat, ← hk₁.latest] at hf
  obtain ⟨hheads, hold, hnew⟩ := ho₁.reveal hsize₁ (by rw [hk₁.latest, ← hlat]; exact hw) hf
  rw [hk₁.latest, ← hlat] at hold hnew
  have hheads₁ := hk₁.headers_eq ho
  obtain ⟨rest, hrest⟩ : ∃ rest, m.headers = m.openWord :: rest := by
    rw [Machine.headers, ← hlat, headersFrom, if_neg hw]
    exact ⟨_, rfl⟩
  have hnewer := Machine.ne_of_mem_older hrest
  have hsame : ∀ x ∈ rest, ∀ n, m₂.answers n x = m.answers n x := fun x hx n => by
    have hx : x ∈ m.headers := by rw [hrest]; exact List.mem_cons_of_mem _ hx
    obtain ⟨hinfo, hname⟩ := ho.header_kept hsize hk₁.region hx
    rw [hold x (hheads₁ ▸ hx) (hnewer x ‹_›) n]
    exact Machine.answers_congr hinfo hname n
  obtain ⟨hinfo, hname⟩ := ho.header_kept hsize hk₁.region (by rw [hrest]; exact List.mem_cons_self)
  have hnames := Machine.names_congr (by rw [hinfo]) hname (foldName m.settings.caseSensitive tok)
  have hhid' : m.answers (foldName m.settings.caseSensitive tok) m.openWord = false := by
    simp [Machine.answers, hhid]
  have hset : m₂.settings = m.settings := by
    obtain ⟨_, _, _, hm₂⟩ := setFlags_run_ok hf
    rw [hm₂]
    exact hk₁.settings
  rw [Machine.lookup_eq_find, Machine.lookup_eq_find, hset, hheads, hheads₁, hrest, List.find?_cons,
    List.find?_cons, hnew, hnames, hhid', List.find?_congr fun x hx => hsame x hx _]
  cases m.names (foldName m.settings.caseSensitive tok) m.openWord <;> rfl

/-! ## Opening a definition -/

theorem parseName_run_ok {s s' : Machine} {name : Bytes} (h : parseName.run s = .ok name s') :
    name = (splitToken s.rest).1 ∧ s' = { s with rest := (splitToken s.rest).2 } := by
  simp only [parseName, nextToken, EStateM.run_bind, EStateM.run_modifyGet] at h
  split at h
  · simp only [EStateM.run_bind, EStateM.run_get] at h
    cases h
  · simp only [EStateM.run_pure, EStateM.Result.ok.injEq] at h
    exact ⟨h.1.symm, h.2.symm⟩

/-- Opening a definition with `:` defines the word named by the next token, hidden: it becomes
the newest word and the open one, and no lookup changes. -/
theorem beginDefinition_hides {s t : Machine} (hs : s.DictRoom) (ho : s.Ordered)
    (hsize : s.region.bytes.size ≤ maxRegion) (hrun : beginDefinition.run s = .ok () t) :
    t.openWord ≠ 0 ∧ t.openWord = t.latest ∧ t.hidden t.openWord = true ∧
      (∀ n, t.names n t.openWord = (n == foldName s.settings.caseSensitive (splitToken s.rest).1 &&
        decide ((foldName s.settings.caseSensitive (splitToken s.rest).1).length ≤ maxNameLen))) ∧
      (∀ tok, t.lookup tok = s.lookup tok) ∧ t.settings = s.settings ∧
      t.region.bytes.size = s.region.bytes.size := by
  simp only [beginDefinition, EStateM.run_bind, EStateM.run_get] at hrun
  split at hrun
  · simp only [EStateM.run_bind] at hrun
    cases hrun
  simp only [EStateM.run_bind] at hrun
  cases hp : parseName.run s with
  | error e u => rw [hp] at hrun; cases hrun
  | ok name s₁ =>
  rw [hp] at hrun
  obtain ⟨rfl, rfl⟩ := parseName_run_ok hp
  dsimp only at hrun
  simp only [EStateM.run_get] at hrun
  generalize hs₁ : { s with rest := (splitToken s.rest).2 } = s₁ at hrun
  have hd₁ : s₁.DictRoom := by
    subst hs₁
    exact ⟨hs.here_pos, hs.here_aligned, hs.dictLimit_le⟩
  have ho₁ : s₁.Ordered := by
    subst hs₁
    exact ho
  have hsize₁ : s₁.region.bytes.size ≤ maxRegion := by
    subst hs₁
    exact hsize
  have hset₁ : s₁.settings = s.settings := by rw [← hs₁]
  have hlook₁ : ∀ tok, s₁.lookup tok = s.lookup tok := fun tok => by rw [← hs₁]; rfl
  cases hd : (define (splitToken s.rest).1 flagHidden).run s₁ with
  | error e u => rw [hd] at hrun; cases hrun
  | ok h m₁ =>
  rw [hd] at hrun
  simp only [EStateM.run_modify, EStateM.Result.ok.injEq] at hrun
  obtain ⟨-, ht⟩ := hrun
  have htr : t.region = m₁.region := by rw [← ht]
  have htl : t.latest = m₁.latest := by rw [← ht]
  have hts : t.settings = m₁.settings := by rw [← ht]
  have hto : t.openWord = h := by rw [← ht]
  -- the header is defined hidden, so no lookup finds it
  have hlook := define_lookup hd₁ ho₁ hsize₁ hd
  have hhid : hasFlag flagHidden flagHidden = true := by decide
  obtain ⟨tr, hroom, rfl, rfl⟩ := define_run_ok hd₁ hd
  have hn := foldName_length_le s₁.settings.caseSensitive (splitToken s.rest).1
  obtain ⟨hh, -⟩ := header_at hn hroom
  rw [hto]
  refine ⟨fun h0 => ?_, htl.symm, ?_, fun n => ?_, fun tok => ?_, ?_, ?_⟩
  · have := hd₁.here_pos
    rw [h0, UInt32.toNat_zero] at hh
    omega
  · rw [Machine.hidden_congr htr]
    exact (Machine.addHeader_hidden hd₁ hn hroom).trans hhid
  · rw [Machine.names_congr_region htr, ← hset₁]
    exact Machine.addHeader_names hd₁ hn hroom n
  · rw [Machine.lookup_congr htr htl hts, ← hlook₁ tok]
    exact (hlook tok).trans (if_neg fun hc => by simp [hhid] at hc)
  · exact hts.trans (Machine.addHeader_settings.trans hset₁)
  · rw [htr, (Machine.addHeader_keptBelow hn hroom).size_eq, ← hs₁]

/-! ## A colon definition -/

theorem Machine.hidden_congr_info {m m' : Machine} {x : UInt32}
    (hinfo : m'.wordInfo? x = m.wordInfo? x) : m'.hidden x = m.hidden x := by
  simp only [Machine.hidden, Machine.wordFlags, hinfo]

theorem Machine.KeepsDictionary.trans {m₁ m₂ m₃ : Machine} (h₁ : m₁.KeepsDictionary m₂)
    (h₂ : m₂.KeepsDictionary m₃) (hh : m₁.here.toNat ≤ m₂.here.toNat) :
    m₁.KeepsDictionary m₃ :=
  ⟨h₁.region.trans (h₂.region.mono hh), h₂.latest.trans h₁.latest, h₂.settings.trans h₁.settings⟩

/-- A step that compiles into the open body: it writes at or above `here` only, keeps the newest
header, the settings and the open word, and leaves the dictionary with room and in order. -/
structure Machine.CompilesInto (m m' : Machine) : Prop where
  keeps : m.KeepsDictionary m'
  openWord : m'.openWord = m.openWord
  room : m'.DictRoom
  ordered : m'.Ordered

/-- Compiling a token compiles into the body. -/
theorem compileToken_compilesInto {m m' : Machine} (hs : m.DictRoom) (ho : m.Ordered)
    {k : TokenKind} {a site : UInt32} (h : (compileToken k a).run m = .ok site m') :
    m.CompilesInto m' := by
  obtain ⟨hk, hh, hw, hl⟩ := compileToken_keeps h
  have ho' := Cursors.ordered_of_ok (Cursors.compileToken_ordered k a) ho h
  refine ⟨hk, hw, ⟨by omega, by have := hs.here_aligned; omega, ?_⟩, ho'⟩
  rw [hl, hk.region.size_eq]
  exact hs.dictLimit_le

/-- Compiling a token with its operand compiles into the body. -/
theorem compileOperand_compilesInto {m m' : Machine} (hs : m.DictRoom) (ho : m.Ordered)
    {k : TokenKind} {v site : UInt32} (h : (compileOperand k v).run m = .ok site m') :
    m.CompilesInto m' := by
  rw [compileOperand] at h
  obtain ⟨site₁, m₁, hc₁, h⟩ := Vm.run_bind_ok h
  obtain ⟨site₂, m₂, hc₂, h⟩ := Vm.run_bind_ok h
  obtain ⟨hk₁, hh₁, hw₁, hl₁⟩ := compileCell_keeps hc₁
  obtain ⟨hk₂, hh₂, hw₂, hl₂⟩ := compileCell_keeps hc₂
  obtain ⟨t, ht⟩ := trace_run "+" (fun _ => Bytes.ofString ("@" ++ toString (site₂ - 4).toNat ++ " ") ++
    m₂.tokenText (site₂ - 4)) m₂
  simp only [EStateM.run_bind, EStateM.run_get, ht, EStateM.run_pure, EStateM.Result.ok.injEq] at h
  obtain ⟨rfl, rfl⟩ := h
  have ho₁ := Cursors.ordered_of_ok (Cursors.compileCell_ordered (Token.make k 0)) ho hc₁
  have ho₂ := Cursors.ordered_of_ok (Cursors.compileCell_ordered v) ho₁ hc₂
  have hk := hk₁.trans hk₂ (by omega)
  refine ⟨⟨hk.region, hk.latest, hk.settings⟩, hw₂.trans hw₁,
    ⟨show 0 < m₂.here.toNat by omega,
      show m₂.here.toNat % 4 = 0 by have := hs.here_aligned; omega, ?_⟩, ho₂⟩
  show m₂.dictLimit.toNat ≤ m₂.region.bytes.size
  rw [hl₂, hl₁, hk.region.size_eq]
  exact hs.dictLimit_le

/-- Compiling a body keeps every lookup, the open word as the newest header, and that header's
flags and name: each step writes above the header, so the induction carries the order and the
size of the region along with them. -/
theorem Machine.CompilesInto.run_kept {m₁ m₂ : Machine}
    (hbody : Relation.ReflTransGen Machine.CompilesInto m₁ m₂) (ho : m₁.Ordered)
    (hsize : m₁.region.bytes.size ≤ maxRegion) (hw : m₁.latest ≠ 0) :
    m₂.Ordered ∧ m₂.region.bytes.size ≤ maxRegion ∧ m₂.openWord = m₁.openWord ∧
      m₂.latest = m₁.latest ∧ m₂.settings = m₁.settings ∧
      m₂.hidden m₁.latest = m₁.hidden m₁.latest ∧
      (∀ n, m₂.names n m₁.latest = m₁.names n m₁.latest) ∧
      (∀ tok, m₂.lookup tok = m₁.lookup tok) ∧ m₂.words = m₁.words := by
  induction hbody with
  | refl => exact ⟨ho, hsize, rfl, rfl, rfl, rfl, fun _ => rfl, fun _ => rfl, rfl⟩
  | @tail b c _ hab ih =>
    obtain ⟨ho', hsize', hw', hl', hs', hh', hn', hlook', hwords'⟩ := ih
    -- the open word is still the newest header, below what the step writes
    have hmem : m₁.latest ∈ b.headers := by
      rw [Machine.headers, hl', headersFrom, if_neg hw]
      exact List.mem_cons_self
    obtain ⟨hinfo, hname⟩ := ho'.header_kept hsize' hab.keeps.region hmem
    refine ⟨hab.ordered, hab.keeps.region.size_eq ▸ hsize', hab.openWord.trans hw',
      hab.keeps.latest.trans hl', hab.keeps.settings.trans hs', ?_, fun n => ?_, fun tok => ?_,
      (hab.keeps.words_eq ho' hsize').trans hwords'⟩
    · rw [← hh', Machine.hidden_congr_info hinfo]
    · rw [← hn' n]
      exact Machine.names_congr (by rw [hinfo]) hname n
    · rw [← hlook' tok]
      exact hab.keeps.lookup_eq ho' hsize' tok

/-- **A colon definition is found.** On a machine whose dictionary has room and is in order, a
definition `: t B ;` whose body compiles into it leaves every lookup as it was but those of the
tokens folding to the name `t`: they find the new word when the folded name has at most 31
bytes. The word is hidden until `;` reveals it. -/
theorem colon_definition_found {s m₁ m₂ t : Machine} (hs : s.DictRoom) (ho : s.Ordered)
    (hsize : s.region.bytes.size ≤ maxRegion) (hcolon : beginDefinition.run s = .ok () m₁)
    (hbody : Relation.ReflTransGen Machine.CompilesInto m₁ m₂)
    (hsemi : endDefinition.run m₂ = .ok () t) (tok : Bytes) :
    t.lookup tok = if foldName s.settings.caseSensitive tok =
          foldName s.settings.caseSensitive (splitToken s.rest).1 ∧
        (foldName s.settings.caseSensitive (splitToken s.rest).1).length ≤ maxNameLen
      then some m₁.openWord else s.lookup tok := by
  obtain ⟨hw₁, hlat₁, hhid₁, hnames₁, hlook₁, hset₁, hsize₁⟩ := beginDefinition_hides hs ho hsize hcolon
  have ho₁ := Cursors.ordered_of_ok Cursors.beginDefinition_ordered ho hcolon
  obtain ⟨ho₂, hsize₂, hw₂, hl₂, hs₂, hh₂, hn₂, hlook₂, -⟩ :=
    Machine.CompilesInto.run_kept hbody ho₁ (hsize₁ ▸ hsize) (hlat₁ ▸ hw₁)
  rw [← hlat₁] at hh₂ hn₂
  rw [endDefinition_lookup ho₂ hsize₂ (hw₂ ▸ hw₁) (by rw [hw₂, hl₂, hlat₁])
    (by rw [hw₂, hh₂, hhid₁]) hsemi tok, hw₂, hn₂, hs₂, hset₁, hnames₁, hlook₂, hlook₁]
  by_cases hc : foldName s.settings.caseSensitive tok =
      foldName s.settings.caseSensitive (splitToken s.rest).1 ∧
    (foldName s.settings.caseSensitive (splitToken s.rest).1).length ≤ maxNameLen
  · simp [hc]
  · rw [if_neg hc, if_neg (by simpa using hc)]

/-! ## Folding a folded name -/

/-- The ASCII case map that folding applies to a scalar. -/
def lowerAscii (c : Nat) : Nat := if 0x41 ≤ c && c ≤ 0x5A then c + 32 else c

/-- The scalar a piece of a name folds to: a stray byte becomes U+FFFD, and so does a code that
is no scalar value, as encoding it makes it. -/
def Text.Piece.folded (p : Piece) : Nat :=
  let c := match p with
    | .scalar c => lowerAscii c
    | .stray _ => replacement
  if isScalar c then c else replacement

theorem lowerAscii_lowerAscii (c : Nat) : lowerAscii (lowerAscii c) = lowerAscii c := by
  unfold lowerAscii
  by_cases h : 0x41 ≤ c ∧ c ≤ 0x5A
  · simp [h]
    omega
  · simp [h]

theorem isScalar_scalarOr (c : Nat) : isScalar (if isScalar c then c else replacement) = true := by
  by_cases h : isScalar c = true
  · rw [if_pos h]
    exact h
  · rw [if_neg h]
    decide

theorem Text.Piece.folded_isScalar (p : Piece) : isScalar p.folded = true := isScalar_scalarOr _

/-- A folded scalar folds to itself. -/
theorem Text.Piece.folded_scalar_folded (p : Piece) : (Piece.scalar p.folded).folded = p.folded := by
  show (if isScalar (lowerAscii p.folded) then lowerAscii p.folded else replacement) = p.folded
  rw [lowerAscii_folded, if_pos p.folded_isScalar]
where
  lowerAscii_folded : lowerAscii p.folded = p.folded := by
    unfold Piece.folded
    cases p with
    | scalar c =>
      dsimp only
      split
      · exact lowerAscii_lowerAscii c
      · decide
    | stray b =>
      dsimp only
      split <;> decide

/-- Encoding turns a code that is no scalar value into U+FFFD. -/
theorem encode_scalarOr (c : Nat) :
    encode (if isScalar c then c else replacement) = encode c := by
  by_cases h : isScalar c = true
  · rw [if_pos h]
  · rw [if_neg h]
    simp [encode, h]

/-- Case-insensitive folding encodes the folded scalar of each piece of the cut name. -/
theorem foldName_false (name : Bytes) :
    foldName false name = ((decode (name.take maxNameLen)).map Piece.folded).flatMap encode := by
  unfold foldName
  simp only [Bool.false_eq_true, if_false, List.flatMap_map]
  congr 1
  funext p
  cases p with
  | scalar c =>
    show encode (lowerAscii c) = encode (if isScalar (lowerAscii c) then lowerAscii c else replacement)
    rw [encode_scalarOr]
  | stray b =>
    show encode replacement = encode (if isScalar replacement then replacement else replacement)
    rw [encode_scalarOr]

/-- A folded name of at most 31 bytes folds to itself: nothing more is cut, lower case stays
lower case, and U+FFFD stays U+FFFD. -/
theorem foldName_foldName (cs : Bool) (name : Bytes) (h : (foldName cs name).length ≤ maxNameLen) :
    foldName cs (foldName cs name) = foldName cs name := by
  cases cs with
  | true => simp [foldName]
  | false =>
    rw [foldName_false (foldName false name), List.take_of_length_le h, foldName_false name,
      decode_flatMap_encode (by simp [Piece.folded_isScalar]), List.map_map, List.map_map]
    congr 2
    funext p
    exact Piece.folded_scalar_folded p

/-! ## Installing a primitive -/

/-- A successful `define` from a machine in order leaves it in order, the new header the
newest. -/
theorem define_ordered_of_ok {s t : Machine} {name : Bytes} {flags : UInt8} {h : UInt32}
    (ho : s.Ordered) (hrun : (define name flags).run s = .ok h t) : t.Ordered ∧ t.latest = h := by
  have hpost := @Vm.run_of_triple _ (define name flags) s (fun h t => t.Ordered ∧ t.latest = h)
    (fun _ t => t.Ordered) fun u hu => Cursors.define_ordered _ _ u (hu ▸ ho)
  rwa [hrun] at hpost

/-- A successful `define` leaves room for more: `here` moves past the new header on a cell
boundary, the region keeps its size, and the new header is the newest. -/
theorem define_room {s t : Machine} (hs : s.DictRoom) {name : Bytes} {flags : UInt8} {h : UInt32}
    (hrun : (define name flags).run s = .ok h t) :
    t.DictRoom ∧ t.latest = h ∧ h ≠ 0 ∧ t.region.bytes.size = s.region.bytes.size := by
  obtain ⟨tr, hroom, rfl, rfl⟩ := define_run_ok hs hrun
  have hn := foldName_length_le s.settings.caseSensitive name
  generalize foldName s.settings.caseSensitive name = name' at hroom hn ⊢
  obtain ⟨-, -, hsz⟩ := header_space hn
  obtain ⟨hh, -⟩ := header_at hn hroom
  have hsize : (s.addHeader name' flags tr).region.bytes.size = s.region.bytes.size :=
    (Machine.addHeader_keptBelow hn hroom).size_eq
  have hpos := hs.here_pos
  have hal := hs.here_aligned
  have hlim := hs.dictLimit_le
  have hhere : (s.addHeader name' flags tr).here.toNat =
      s.here.toNat + ((name'.length + 3) / 4 * 4 + 8) := by
    have := s.dictLimit.toNat_lt
    simp only [Machine.addHeader]
    rw [UInt32.toNat_add, hsz]
    omega
  have hd : (s.addHeader name' flags tr).dictLimit = s.dictLimit := by
    unfold Machine.addHeader
    rfl
  refine ⟨⟨by omega, by omega, ?_⟩, rfl, fun h0 => ?_, hsize⟩
  · rw [hd, hsize]
    exact hlim
  · rw [h0, UInt32.toNat_zero] at hh
    omega

/-- A successful installation adds the primitive to the table, defines its builtin word with
the folded name on the same dictionary, and compiles the word's body above the header. -/
theorem installPrimitive_run_ok {s t : Machine} (hs : s.DictRoom) (ho : s.Ordered)
    (hsize : s.region.bytes.size ≤ maxRegion) {p : Primitive}
    (hrun : (installPrimitive p).run s = .ok () t) :
    ∃ s₁ h m₁, s₁.DictRoom ∧ s₁.Ordered ∧ s₁.region.bytes.size ≤ maxRegion ∧
      s₁.settings = s.settings ∧ (∀ tok, s₁.lookup tok = s.lookup tok) ∧ s₁.words = s.words ∧
      (define (foldName s.settings.caseSensitive p.name) (p.flags ||| flagBuiltin)).run s₁ =
        .ok h m₁ ∧ m₁.Ordered ∧ Relation.ReflTransGen Machine.CompilesInto m₁ t := by
  -- rewritten step by step: a `simp` through the whole body is slow for the kernel to check
  rw [installPrimitive, EStateM.run_bind, EStateM.run_get] at hrun
  dsimp only at hrun
  split at hrun
  · rw [EStateM.run_bind, EStateM.run_throw] at hrun
    cases hrun
  split at hrun
  · rw [EStateM.run_bind, EStateM.run_throw] at hrun
    cases hrun
  split at hrun
  · rw [EStateM.run_bind, EStateM.run_throw] at hrun
    cases hrun
  split at hrun
  · rw [EStateM.run_bind, EStateM.run_throw] at hrun
    cases hrun
  rw [EStateM.run_bind, EStateM.run_set] at hrun
  dsimp only at hrun
  generalize hs₁ : { s with prims := s.prims.push p } = s₁ at hrun
  obtain ⟨h, m₁, hd, hrun⟩ := Vm.run_bind_ok hrun
  obtain ⟨site₁, m₂, hc₁, hrun⟩ := Vm.run_bind_ok hrun
  obtain ⟨site₂, m₃, hc₂, hrun⟩ := Vm.run_bind_ok hrun
  rw [EStateM.run_pure] at hrun
  cases hrun
  -- the table entry changes nothing the dictionary reads
  have hd₁ : s₁.DictRoom := by
    subst hs₁
    exact ⟨hs.here_pos, hs.here_aligned, hs.dictLimit_le⟩
  have ho₁ : s₁.Ordered := by
    subst hs₁
    exact ho
  have hreg₁ : s₁.region = s.region := by rw [← hs₁]
  have hlat₁ : s₁.latest = s.latest := by rw [← hs₁]
  have hset₁ : s₁.settings = s.settings := by rw [← hs₁]
  have hom₁ : m₁.Ordered := (define_ordered_of_ok ho₁ hd).1
  -- the two compiled tokens go above the new header
  obtain ⟨hroom₁, -, -, -⟩ := define_room hd₁ hd
  have step₁ := compileToken_compilesInto hroom₁ hom₁ hc₁
  have step₂ := compileToken_compilesInto step₁.room step₁.ordered hc₂
  refine ⟨s₁, h, m₁, hd₁, ho₁, hreg₁ ▸ hsize, hset₁,
    fun tok => Machine.lookup_congr hreg₁ hlat₁ hset₁ tok, ?_, hd, hom₁,
    Relation.ReflTransGen.single step₁ |>.tail step₂⟩
  simp only [Machine.words, Machine.headers, Machine.wordInfo?, Machine.wordName, hreg₁, hlat₁]

/-- **Installing a primitive.** The name is folded once to check the room and again by `define`;
the installed word answers the tokens whose fold is that twice-folded name, when it has at most
31 bytes and the flags do not hide the word, and every other lookup finds what it found
before. -/
theorem install_lookup {s t : Machine} (hs : s.DictRoom) (ho : s.Ordered)
    (hsize : s.region.bytes.size ≤ maxRegion) {p : Primitive}
    (hrun : (installPrimitive p).run s = .ok () t) (tok : Bytes) :
    t.lookup tok = if hasFlag (p.flags ||| flagBuiltin) flagHidden = false ∧
        foldName s.settings.caseSensitive tok =
          foldName s.settings.caseSensitive (foldName s.settings.caseSensitive p.name) ∧
        (foldName s.settings.caseSensitive (foldName s.settings.caseSensitive p.name)).length ≤
          maxNameLen
      then some t.latest else s.lookup tok := by
  obtain ⟨s₁, h, m₁, hd₁, ho₁, hsize₁, hset₁, hlook₁, -, hd, hom₁, hbody⟩ :=
    installPrimitive_run_ok hs ho hsize hrun
  obtain ⟨hroom₁, hlat₁, hne₁, hsz₁⟩ := define_room hd₁ hd
  obtain ⟨-, -, -, hl, -, -, -, hlook, -⟩ :=
    Machine.CompilesInto.run_kept hbody hom₁ (hsz₁ ▸ hsize₁) (hlat₁ ▸ hne₁)
  rw [hlook, define_lookup hd₁ ho₁ hsize₁ hd tok, hl, hlat₁, hset₁, hlook₁]

/-- The installed word is listed first, with its twice-folded name or the empty name past 31
bytes, unless its flags hide it. -/
theorem install_words {s t : Machine} (hs : s.DictRoom) (ho : s.Ordered)
    (hsize : s.region.bytes.size ≤ maxRegion) {p : Primitive}
    (hrun : (installPrimitive p).run s = .ok () t) :
    t.words = (if hasFlag (p.flags ||| flagBuiltin) flagHidden then [] else
      [if (foldName s.settings.caseSensitive (foldName s.settings.caseSensitive p.name)).length ≤
          maxNameLen
        then foldName s.settings.caseSensitive (foldName s.settings.caseSensitive p.name)
        else []]) ++ s.words := by
  obtain ⟨s₁, h, m₁, hd₁, ho₁, hsize₁, hset₁, -, hwords₁, hd, hom₁, hbody⟩ :=
    installPrimitive_run_ok hs ho hsize hrun
  obtain ⟨hroom₁, hlat₁, hne₁, hsz₁⟩ := define_room hd₁ hd
  obtain ⟨-, -, -, -, -, -, -, -, hwords⟩ :=
    Machine.CompilesInto.run_kept hbody hom₁ (hsz₁ ▸ hsize₁) (hlat₁ ▸ hne₁)
  rw [hwords, define_words hd₁ ho₁ hsize₁ hd, hset₁, hwords₁]

/-! ## Every defined name is found again -/

/-- What lookups and listings do on a machine, and after each way of adding a word to it. -/
structure Machine.NamesFound (s : Machine) : Prop where
  /-- A lookup finds the newest visible header with the token's folded name. -/
  newest : ∀ tok h, s.lookup tok = some h ↔ s.answers (foldName s.settings.caseSensitive tok) h ∧
    ∃ newer older, s.headers = newer ++ h :: older ∧
      ∀ x ∈ newer, s.answers (foldName s.settings.caseSensitive tok) x = false
  /-- No lookup finds a name folded past 31 bytes. -/
  short : ∀ tok h, s.lookup tok = some h →
    (foldName s.settings.caseSensitive tok).length ≤ maxNameLen
  /-- `define` keeps the dictionary in shape, so words can be added one after another; the new
  word answers exactly the tokens of its folded name and is listed first, unless hidden or named
  past 31 bytes, and every other lookup stays. -/
  define : ∀ name flags h t, (define name flags).run s = .ok h t →
    t.DictRoom ∧ t.Ordered ∧ t.region.bytes.size ≤ maxRegion ∧
    (∀ tok, t.lookup tok = if hasFlag flags flagHidden = false ∧
        foldName s.settings.caseSensitive tok = foldName s.settings.caseSensitive name ∧
        (foldName s.settings.caseSensitive name).length ≤ maxNameLen
      then some h else s.lookup tok) ∧
    t.words = (if hasFlag flags flagHidden then [] else
      [if (foldName s.settings.caseSensitive name).length ≤ maxNameLen
        then foldName s.settings.caseSensitive name else []]) ++ s.words
  /-- After `: t B ;`, with a body compiled into the definition, the new word answers exactly the
  tokens folding to the name `t` when that fold has at most 31 bytes; every other lookup stays. -/
  colon : ∀ m₁ m₂ t, beginDefinition.run s = .ok () m₁ →
    Relation.ReflTransGen Machine.CompilesInto m₁ m₂ → endDefinition.run m₂ = .ok () t →
    ∀ tok, t.lookup tok = if foldName s.settings.caseSensitive tok =
          foldName s.settings.caseSensitive (splitToken s.rest).1 ∧
        (foldName s.settings.caseSensitive (splitToken s.rest).1).length ≤ maxNameLen
      then some m₁.openWord else s.lookup tok
  /-- An installed primitive answers the tokens of its twice-folded name and is listed first,
  unless hidden or named past 31 bytes; every other lookup stays. -/
  install : ∀ p t, (installPrimitive p).run s = .ok () t →
    (∀ tok, t.lookup tok = if hasFlag (p.flags ||| flagBuiltin) flagHidden = false ∧
        foldName s.settings.caseSensitive tok =
          foldName s.settings.caseSensitive (foldName s.settings.caseSensitive p.name) ∧
        (foldName s.settings.caseSensitive (foldName s.settings.caseSensitive p.name)).length ≤
          maxNameLen
      then some t.latest else s.lookup tok) ∧
    t.words = (if hasFlag (p.flags ||| flagBuiltin) flagHidden then [] else
      [if (foldName s.settings.caseSensitive (foldName s.settings.caseSensitive p.name)).length ≤
          maxNameLen
        then foldName s.settings.caseSensitive (foldName s.settings.caseSensitive p.name)
        else []]) ++ s.words
  /-- A folded name of at most 31 bytes folds to itself, so folding it twice changes nothing. -/
  refold : ∀ name, (foldName s.settings.caseSensitive name).length ≤ maxNameLen →
    foldName s.settings.caseSensitive (foldName s.settings.caseSensitive name) =
      foldName s.settings.caseSensitive name

/-- **Every defined name is found again.** On a machine whose dictionary has room, is in order
and lies in a region of at most 16 MiB, as on every machine a host reaches, lookups, `define`,
colon definitions and installed primitives behave as `Machine.NamesFound` says. -/
theorem defined_names_found {s : Machine} (hs : s.DictRoom) (ho : s.Ordered)
    (hsize : s.region.bytes.size ≤ maxRegion) : s.NamesFound where
  newest := s.lookup_eq_some_iff
  short := fun _ _ hl => Machine.lookup_length_le hl
  define := fun name flags h t hrun => by
    obtain ⟨hroom, -, -, hsz⟩ := define_room hs hrun
    exact ⟨hroom, (define_ordered_of_ok ho hrun).1, hsz ▸ hsize, define_lookup hs ho hsize hrun, define_words hs ho hsize hrun⟩
  colon := fun _ _ _ hcolon hbody hsemi => colon_definition_found hs ho hsize hcolon hbody hsemi
  install := fun _ _ hrun => ⟨install_lookup hs ho hsize hrun, install_words hs ho hsize hrun⟩
  refold := foldName_foldName s.settings.caseSensitive

end ForthMachine
