import Mathlib
import ForthMachine.Proofs.Fixture
import ForthMachine.Proofs.DictionaryWalk

/-!
# The order of the dictionary's cursors

The newest header lies a whole header below `here`: its link and flags cells come before
`here`, and so does every older header, since a walk of the dictionary only goes down. The
record of an open definition keeps the same order for the `here` and `latest` it restores, and
the open word is never newer than the newest header. `Cursors.Ordered` states this.

Every operation keeps the order, whether it succeeds or fails. Laying the machine out starts
the dictionary empty; afterwards `here` only moves up (`allocate`), a header is made the newest
only once its two cells are written below `here` (`define`), space is given back no lower than
the newest header's body (`allot` with a negative count), and abandoning a definition restores
a record taken while the order held. Each operation gets one Hoare triple,
`⦃s.Ordered⦄ op ⦃s.Ordered⦄`, proved from the triples of its callees by `mvcgen`, scoped to
`Cursors` like the other frames stated about the same operations. From them: a line and a host
call keep the order, and every machine a session reaches from a creation has it
(`performAll_ordered`).
-/

open Std.Do

set_option mvcgen.warning false

namespace ForthMachine

open ForthMachine.Text ForthMachine.Memory ForthMachine.Block

/-- The dictionary's cursors: `here`, the newest header, and the record of the open
definition, its header and the `here` and `latest` from before its `:`. -/
structure Cursors where
  here : UInt32
  latest : UInt32
  openWord : UInt32
  openHere : UInt32
  openLatest : UInt32

/-- The machine's dictionary cursors. -/
def Machine.cursors (m : Machine) : Cursors :=
  ⟨m.here, m.latest, m.openWord, m.openHere, m.openLatest⟩

/-- The cursors are in order: the newest header, if any, has its two cells below `here`; the
open word is no newer than the newest header; and the record of the open definition is in the
same order. -/
structure Cursors.Ordered (c : Cursors) : Prop where
  latest : c.latest = 0 ∨ c.latest.toNat + 8 ≤ c.here.toNat
  opened : c.openWord ≤ c.latest
  saved : c.openLatest = 0 ∨ c.openLatest.toNat + 8 ≤ c.openHere.toNat

/-- The machine's cursors are in order. It reads only the cursors, so an update of any other
field keeps it by definition. -/
abbrev Machine.Ordered (m : Machine) : Prop := m.cursors.Ordered

@[simp] theorem Machine.cursors_setStack (m : Machine) (st : StackName) (t : Stack) :
    (m.setStack st t).cursors = m.cursors := by
  cases st <;> rfl

/-- A header below `here` stays below when `here` moves up. -/
theorem Cursors.Ordered.here_le {c : Cursors} (h : c.Ordered) {here : UInt32}
    (hle : c.here.toNat ≤ here.toNat) : { c with here := here }.Ordered :=
  ⟨h.latest.imp_right (Nat.le_trans · hle), h.opened, h.saved⟩

namespace Cursors.Ordered

variable {c : Cursors}

/-- Closing the open definition keeps the order. -/
theorem close (h : c.Ordered) : { c with openWord := 0 }.Ordered :=
  ⟨h.latest, UInt32.zero_le, h.saved⟩

/-- Abandoning the open definition restores cursors it recorded in order. -/
theorem restore (h : c.Ordered) :
    { c with here := c.openHere, latest := c.openLatest, openWord := 0 }.Ordered :=
  ⟨h.saved, UInt32.zero_le, h.saved⟩

/-- Opening a definition at the newest header records cursors taken in order. -/
theorem record (h : c.Ordered) {here latest : UInt32}
    (h₀ : latest = 0 ∨ latest.toNat + 8 ≤ here.toNat) :
    { c with openWord := c.latest, openHere := here, openLatest := latest }.Ordered :=
  ⟨h.latest, UInt32.le_refl _, h₀⟩

/-- Giving space back no lower than the newest header's body keeps the order; the body's
address does not wrap, as the header lies below `here`. -/
theorem giveBack (h : c.Ordered) {dec : UInt32} (hd : ¬ c.here < dec)
    (hf : ¬ c.here - dec < c.latest + headerSize) : { c with here := c.here - dec }.Ordered := by
  refine ⟨?_, h.opened, h.saved⟩
  rcases h.latest with h0 | hbelow
  · exact .inl h0
  · right
    have hf' := UInt32.le_iff_toNat_le.mp (UInt32.not_lt.mp hf)
    have h8 : (c.latest + headerSize).toNat = c.latest.toNat + 8 := by
      have := c.here.toNat_lt
      rw [UInt32.toNat_add]
      simp only [headerSize, UInt32.reduceToNat]
      omega
    rw [UInt32.toNat_sub_of_le _ _ (UInt32.not_lt.mp hd), h8] at hf'
    rw [UInt32.toNat_sub_of_le _ _ (UInt32.not_lt.mp hd)]
    omega

/-- An empty dictionary is in order, whatever the record of the last definition. -/
theorem empty (h : c.Ordered) (here : UInt32) :
    { c with here := here, latest := 0, openWord := 0 }.Ordered :=
  ⟨.inl rfl, UInt32.le_refl _, h.saved⟩

end Cursors.Ordered

/-- Every header of the dictionary lies a whole header below `here`. -/
theorem Machine.Ordered.header_below {m : Machine} (hm : m.Ordered) {h : UInt32}
    (hh : h ∈ m.headers) : h ≠ 0 ∧ h.toNat + 8 ≤ m.here.toNat := by
  have hne : h ≠ 0 := ne_zero_of_mem_headersFrom hh
  refine ⟨hne, ?_⟩
  have hle : h ≤ m.latest := (headersFrom_lt m.region m.latest).2 h hh
  rcases hm.latest with h0 | hbelow
  · exact absurd (UInt32.le_zero_iff.mp (h0 ▸ hle)) hne
  · have := UInt32.le_iff_toNat_le.mp hle
    simp only [Machine.cursors] at hbelow
    omega

/-- Allocation fails, changing nothing, past the dictionary's limit or the region's end, and
otherwise zeroes whole cells at `here` and moves `here` past them. -/
theorem allocate_run_eq (m : Machine) (n : UInt32) :
    (allocate n).run m =
      if m.dictLimit.toNat < m.here.toNat + (alignUp n).toNat then
        .error (.outOfMemory (alignUp n) (m.dictLimit - m.here)) m
      else match m.region.check m.here (alignUp n).toNat .slice with
        | .ok () => .ok m.here { m with region := m.region.fillAt m.here.toNat 0 (alignUp n).toNat,
                                        here := m.here + alignUp n }
        | .error e => .error (.address e) m := by
  simp only [allocate, EStateM.run_bind, EStateM.run_get]
  by_cases hc : m.dictLimit.toNat < m.here.toNat + (alignUp n).toNat
  · rw [if_pos (by omega), if_pos hc]
    rfl
  · rw [if_neg (by omega), if_neg hc]
    cases m.region.check m.here (alignUp n).toNat .slice <;> rfl

namespace Cursors

@[scoped spec] theorem trace_ordered (mark : String) (msg : Unit → Bytes) :
    ⦃fun s => ⌜s.Ordered⌝⦄ trace mark msg ⦃post⟨fun _ s => ⌜s.Ordered⌝, fun _ s => ⌜s.Ordered⌝⟩⦄ :=
  Vm.triple_of_run fun s hs => by
    obtain ⟨t, ht⟩ := trace_run mark msg s
    rw [ht]
    exact hs

@[scoped spec] theorem emitBytes_ordered (p : Bytes) :
    ⦃fun s => ⌜s.Ordered⌝⦄ emitBytes p ⦃post⟨fun _ s => ⌜s.Ordered⌝, fun _ s => ⌜s.Ordered⌝⟩⦄ := by
  mvcgen [emitBytes]

@[scoped spec] theorem loadCell_ordered (a : UInt32) :
    ⦃fun s => ⌜s.Ordered⌝⦄ loadCell a ⦃post⟨fun _ s => ⌜s.Ordered⌝, fun _ s => ⌜s.Ordered⌝⟩⦄ := by
  mvcgen [loadCell, Vm.ofRegion]

@[scoped spec] theorem changeRegion_ordered (f : Region → Region) :
    ⦃fun s => ⌜s.Ordered⌝⦄ changeRegion f ⦃post⟨fun _ s => ⌜s.Ordered⌝, fun _ s => ⌜s.Ordered⌝⟩⦄ := by
  mvcgen [changeRegion, takeRegion]

@[scoped spec] theorem storCell_ordered (a v : UInt32) :
    ⦃fun s => ⌜s.Ordered⌝⦄ storCell a v ⦃post⟨fun _ s => ⌜s.Ordered⌝, fun _ s => ⌜s.Ordered⌝⟩⦄ := by
  mvcgen [storCell, Vm.ofRegion]

@[scoped spec] theorem storByte_ordered (a : UInt32) (b : UInt8) :
    ⦃fun s => ⌜s.Ordered⌝⦄ storByte a b ⦃post⟨fun _ s => ⌜s.Ordered⌝, fun _ s => ⌜s.Ordered⌝⟩⦄ := by
  mvcgen [storByte, Vm.ofRegion]

@[scoped spec] theorem copyIn_ordered (a : UInt32) (bs : Bytes) :
    ⦃fun s => ⌜s.Ordered⌝⦄ copyIn a bs ⦃post⟨fun _ s => ⌜s.Ordered⌝, fun _ s => ⌜s.Ordered⌝⟩⦄ := by
  mvcgen [copyIn, Vm.ofRegion]

@[scoped spec] theorem slice_ordered (a : UInt32) (n : Nat) :
    ⦃fun s => ⌜s.Ordered⌝⦄ slice a n ⦃post⟨fun _ s => ⌜s.Ordered⌝, fun _ s => ⌜s.Ordered⌝⟩⦄ := by
  mvcgen [slice, Vm.ofRegion]

@[scoped spec] theorem push_ordered (st : StackName) (v : UInt32) :
    ⦃fun s => ⌜s.Ordered⌝⦄ push st v ⦃post⟨fun _ s => ⌜s.Ordered⌝, fun _ s => ⌜s.Ordered⌝⟩⦄ := by
  mvcgen [push]
  all_goals simp_all +zetaDelta only [Machine.Ordered, Machine.cursors_setStack]

@[scoped spec] theorem peek_ordered (st : StackName) (n : UInt32) :
    ⦃fun s => ⌜s.Ordered⌝⦄ peek st n ⦃post⟨fun _ s => ⌜s.Ordered⌝, fun _ s => ⌜s.Ordered⌝⟩⦄ := by
  mvcgen [peek, Vm.ofStack]

@[scoped spec] theorem dropCells_ordered (st : StackName) (n : UInt32) :
    ⦃fun s => ⌜s.Ordered⌝⦄ dropCells st n ⦃post⟨fun _ s => ⌜s.Ordered⌝, fun _ s => ⌜s.Ordered⌝⟩⦄ := by
  mvcgen [dropCells, Vm.ofStack]
  all_goals simp_all +zetaDelta only [Machine.Ordered, Machine.cursors_setStack]

@[scoped spec] theorem pop_ordered (st : StackName) :
    ⦃fun s => ⌜s.Ordered⌝⦄ pop st ⦃post⟨fun _ s => ⌜s.Ordered⌝, fun _ s => ⌜s.Ordered⌝⟩⦄ := by
  mvcgen [pop]

@[scoped spec] theorem poke_ordered (st : StackName) (n v : UInt32) :
    ⦃fun s => ⌜s.Ordered⌝⦄ poke st n v ⦃post⟨fun _ s => ⌜s.Ordered⌝, fun _ s => ⌜s.Ordered⌝⟩⦄ := by
  mvcgen [poke, Vm.ofStack]

@[scoped spec] theorem popN_ordered (n : Nat) :
    ⦃fun s => ⌜s.Ordered⌝⦄ popN n ⦃post⟨fun _ s => ⌜s.Ordered⌝, fun _ s => ⌜s.Ordered⌝⟩⦄ := by
  mvcgen [popN] invariants
  | inv1 => post⟨fun _ s => ⌜s.Ordered⌝, fun _ s => ⌜s.Ordered⌝⟩
  all_goals simp_all only [Nat.toUInt32_eq, UInt32.not_lt, implies_true]

@[scoped spec] theorem pushAll_ordered (vs : List UInt32) :
    ⦃fun s => ⌜s.Ordered⌝⦄ pushAll vs ⦃post⟨fun _ s => ⌜s.Ordered⌝, fun _ s => ⌜s.Ordered⌝⟩⦄ := by
  induction vs with
  | nil => mvcgen [pushAll]
  | cons v vs ih =>
    have h : pushAll (v :: vs) = (do push .data v; pushAll vs) := rfl
    rw [h]
    mvcgen [ih]

@[scoped spec] theorem radix_ordered :
    ⦃fun s => ⌜s.Ordered⌝⦄ radix ⦃post⟨fun _ s => ⌜s.Ordered⌝, fun _ s => ⌜s.Ordered⌝⟩⦄ := by
  mvcgen [radix]

@[scoped spec] theorem checkData_ordered (a : UInt32) (n : Nat) (acc : Access) :
    ⦃fun s => ⌜s.Ordered⌝⦄ checkData a n acc ⦃post⟨fun _ s => ⌜s.Ordered⌝, fun _ s => ⌜s.Ordered⌝⟩⦄ := by
  mvcgen [checkData]

@[scoped spec] theorem loadData_ordered (a : UInt32) :
    ⦃fun s => ⌜s.Ordered⌝⦄ loadData a ⦃post⟨fun _ s => ⌜s.Ordered⌝, fun _ s => ⌜s.Ordered⌝⟩⦄ := by
  mvcgen [loadData]

@[scoped spec] theorem storData_ordered (a v : UInt32) :
    ⦃fun s => ⌜s.Ordered⌝⦄ storData a v ⦃post⟨fun _ s => ⌜s.Ordered⌝, fun _ s => ⌜s.Ordered⌝⟩⦄ := by
  mvcgen [storData]

@[scoped spec] theorem dataBytes_ordered (a : UInt32) (n : Nat) :
    ⦃fun s => ⌜s.Ordered⌝⦄ dataBytes a n ⦃post⟨fun _ s => ⌜s.Ordered⌝, fun _ s => ⌜s.Ordered⌝⟩⦄ := by
  mvcgen [dataBytes]

@[scoped spec] theorem nextToken_ordered :
    ⦃fun s => ⌜s.Ordered⌝⦄ nextToken ⦃post⟨fun _ s => ⌜s.Ordered⌝, fun _ s => ⌜s.Ordered⌝⟩⦄ := by
  mvcgen [nextToken]

@[scoped spec] theorem parseUntil_ordered (d : UInt8) :
    ⦃fun s => ⌜s.Ordered⌝⦄ parseUntil d ⦃post⟨fun _ s => ⌜s.Ordered⌝, fun _ s => ⌜s.Ordered⌝⟩⦄ := by
  mvcgen [parseUntil]

@[scoped spec] theorem parseName_ordered :
    ⦃fun s => ⌜s.Ordered⌝⦄ parseName ⦃post⟨fun _ s => ⌜s.Ordered⌝, fun _ s => ⌜s.Ordered⌝⟩⦄ := by
  mvcgen [parseName]

@[scoped spec] theorem skipLine_ordered :
    ⦃fun s => ⌜s.Ordered⌝⦄ skipLine ⦃post⟨fun _ s => ⌜s.Ordered⌝, fun _ s => ⌜s.Ordered⌝⟩⦄ := by
  mvcgen [skipLine]

@[scoped spec] theorem wordInfo_ordered (h : UInt32) :
    ⦃fun s => ⌜s.Ordered⌝⦄ wordInfo h ⦃post⟨fun _ s => ⌜s.Ordered⌝, fun _ s => ⌜s.Ordered⌝⟩⦄ := by
  mvcgen [wordInfo, Vm.ofRegion]

/-- Allocation moves `here` up, within the dictionary's limit, so it cannot wrap. -/
@[scoped spec] theorem allocate_ordered (n : UInt32) :
    ⦃fun s => ⌜s.Ordered⌝⦄ allocate n ⦃post⟨fun _ s => ⌜s.Ordered⌝, fun _ s => ⌜s.Ordered⌝⟩⦄ := by
  mvcgen [allocate, Vm.ofRegion, changeRegion, takeRegion]
  refine Cursors.Ordered.here_le (by assumption) ?_
  simp_all +zetaDelta only [Machine.cursors, gt_iff_lt, not_lt, UInt32.toNat_add]
  have := UInt32.toNat_lt ‹Machine›.dictLimit
  omega

/-- A header is made the newest only once its cells are written: the name is short, so its
cells end a whole header below the new `here`. -/
@[scoped spec] theorem define_ordered (name : Bytes) (flags : UInt8) :
    ⦃fun s => ⌜s.Ordered⌝⦄ define name flags
    ⦃post⟨fun h s => ⌜s.Ordered ∧ s.latest = h⌝, fun _ s => ⌜s.Ordered⌝⟩⦄ :=
  Vm.triple_of_run fun s hs => by
    have hn := foldName_length_le s.settings.caseSensitive name
    simp only [define, EStateM.run_bind, EStateM.run_get, Vm.tryCatch_run, allocate_run_eq]
    generalize foldName s.settings.caseSensitive name = name' at hn ⊢
    obtain ⟨-, hB, hA⟩ := header_space hn
    by_cases hfull : s.dictLimit.toNat <
        s.here.toNat + (alignUp (alignUp name'.length.toUInt32 + headerSize)).toNat
    · -- the dictionary is full: nothing changed
      simp only [if_pos hfull]
      exact hs
    simp only [if_neg hfull]
    cases hchk : s.region.check s.here (alignUp (alignUp name'.length.toUInt32 + headerSize)).toNat
      .slice with
    | error e =>
      simp only
      exact hs
    | ok u =>
      simp only
      set A := alignUp (alignUp name'.length.toUInt32 + headerSize)
      set B := alignUp name'.length.toUInt32
      have hlim := s.dictLimit.toNat_lt
      have hA' : (s.here + A).toNat = s.here.toNat + A.toNat := by rw [UInt32.toNat_add]; omega
      have hB' : (s.here + B).toNat = s.here.toNat + B.toNat := by rw [UInt32.toNat_add]; omega
      -- the header's space is reserved and `here` moves past it; the writes into it keep that
      have ho₁ : Cursors.Ordered { s.cursors with here := s.here + A } :=
        hs.here_le (by simp only [Machine.cursors]; omega)
      rw [copyIn_run]
      cases hc₁ : (s.region.fillAt s.here.toNat 0 A.toNat).copyIn s.here name' with
      | error e => exact ho₁
      | ok r₁ =>
        simp only
        rw [storCell_run]
        cases hc₂ : r₁.storCell (s.here + B) s.latest with
        | error e => exact ho₁
        | ok r₂ =>
          simp only
          rw [storCell_run]
          cases hc₃ : r₂.storCell (s.here + B + 4) (flags.toUInt32 ||| name'.length.toUInt32 <<< 8) with
          | error e => exact ho₁
          | ok r₃ =>
            simp only [EStateM.run_modify]
            obtain ⟨t, ht⟩ := trace_run ":" (fun _ => name' ++
              Bytes.ofString (" @" ++ toString (s.here + B).toNat ++ " " ++ flagsText flags))
              { s with region := r₃, here := s.here + A, latest := s.here + B }
            rw [ht]
            -- the new header's two cells end at the new `here`, above the headers before it
            have hopen := UInt32.le_iff_toNat_le.mp hs.opened
            refine ⟨⟨.inr ?_, UInt32.le_iff_toNat_le.mpr ?_, hs.saved⟩, rfl⟩
            · simp only [Machine.cursors]
              omega
            · rcases hs.latest with h0 | hbelow
              · simp only [Machine.cursors] at h0 hopen ⊢
                rw [h0, UInt32.toNat_zero] at hopen
                omega
              · simp only [Machine.cursors] at hopen hbelow ⊢
                omega

@[scoped spec] theorem abandon_ordered :
    ⦃fun s => ⌜s.Ordered⌝⦄ abandon ⦃post⟨fun _ s => ⌜s.Ordered⌝, fun _ s => ⌜s.Ordered⌝⟩⦄ := by
  mvcgen [abandon]
  exact Cursors.Ordered.restore ‹_›

@[scoped spec] theorem setFlags_ordered (h : UInt32) (a b : UInt8) :
    ⦃fun s => ⌜s.Ordered⌝⦄ setFlags h a b ⦃post⟨fun _ s => ⌜s.Ordered⌝, fun _ s => ⌜s.Ordered⌝⟩⦄ := by
  mvcgen [setFlags]

@[scoped spec] theorem compileCell_ordered (v : UInt32) :
    ⦃fun s => ⌜s.Ordered⌝⦄ compileCell v ⦃post⟨fun _ s => ⌜s.Ordered⌝, fun _ s => ⌜s.Ordered⌝⟩⦄ := by
  mvcgen [compileCell]

@[scoped spec] theorem compileToken_ordered (k : TokenKind) (a : UInt32) :
    ⦃fun s => ⌜s.Ordered⌝⦄ compileToken k a ⦃post⟨fun _ s => ⌜s.Ordered⌝, fun _ s => ⌜s.Ordered⌝⟩⦄ := by
  mvcgen [compileToken]

@[scoped spec] theorem compileOperand_ordered (k : TokenKind) (a : UInt32) :
    ⦃fun s => ⌜s.Ordered⌝⦄ compileOperand k a ⦃post⟨fun _ s => ⌜s.Ordered⌝, fun _ s => ⌜s.Ordered⌝⟩⦄ := by
  mvcgen [compileOperand]

@[scoped spec] theorem patch_ordered (site target : UInt32) :
    ⦃fun s => ⌜s.Ordered⌝⦄ patch site target ⦃post⟨fun _ s => ⌜s.Ordered⌝, fun _ s => ⌜s.Ordered⌝⟩⦄ := by
  mvcgen [patch]

@[scoped spec] theorem pushFixup_ordered (k : Fixup) (site : UInt32) :
    ⦃fun s => ⌜s.Ordered⌝⦄ pushFixup k site ⦃post⟨fun _ s => ⌜s.Ordered⌝, fun _ s => ⌜s.Ordered⌝⟩⦄ := by
  mvcgen [pushFixup]

@[scoped spec] theorem popFixup_ordered (want : List Fixup) :
    ⦃fun s => ⌜s.Ordered⌝⦄ popFixup want ⦃post⟨fun _ s => ⌜s.Ordered⌝, fun _ s => ⌜s.Ordered⌝⟩⦄ := by
  mvcgen [popFixup]

@[scoped spec] theorem compileWord_ordered (h : UInt32) :
    ⦃fun s => ⌜s.Ordered⌝⦄ compileWord h ⦃post⟨fun _ s => ⌜s.Ordered⌝, fun _ s => ⌜s.Ordered⌝⟩⦄ := by
  mvcgen [compileWord]

@[scoped spec] theorem endDefinition_ordered :
    ⦃fun s => ⌜s.Ordered⌝⦄ endDefinition ⦃post⟨fun _ s => ⌜s.Ordered⌝, fun _ s => ⌜s.Ordered⌝⟩⦄ := by
  mvcgen [endDefinition]
  exact Cursors.Ordered.close ‹_›

@[scoped spec] theorem makeImmediate_ordered :
    ⦃fun s => ⌜s.Ordered⌝⦄ makeImmediate ⦃post⟨fun _ s => ⌜s.Ordered⌝, fun _ s => ⌜s.Ordered⌝⟩⦄ := by
  mvcgen [makeImmediate]

@[scoped spec] theorem compileRecurse_ordered :
    ⦃fun s => ⌜s.Ordered⌝⦄ compileRecurse ⦃post⟨fun _ s => ⌜s.Ordered⌝, fun _ s => ⌜s.Ordered⌝⟩⦄ := by
  mvcgen [compileRecurse]

@[scoped spec] theorem compileLiteral_ordered :
    ⦃fun s => ⌜s.Ordered⌝⦄ compileLiteral ⦃post⟨fun _ s => ⌜s.Ordered⌝, fun _ s => ⌜s.Ordered⌝⟩⦄ := by
  mvcgen [compileLiteral]

@[scoped spec] theorem compileExit_ordered :
    ⦃fun s => ⌜s.Ordered⌝⦄ compileExit ⦃post⟨fun _ s => ⌜s.Ordered⌝, fun _ s => ⌜s.Ordered⌝⟩⦄ := by
  mvcgen [compileExit]

@[scoped spec] theorem compileIf_ordered :
    ⦃fun s => ⌜s.Ordered⌝⦄ compileIf ⦃post⟨fun _ s => ⌜s.Ordered⌝, fun _ s => ⌜s.Ordered⌝⟩⦄ := by
  mvcgen [compileIf]

@[scoped spec] theorem compileElse_ordered :
    ⦃fun s => ⌜s.Ordered⌝⦄ compileElse ⦃post⟨fun _ s => ⌜s.Ordered⌝, fun _ s => ⌜s.Ordered⌝⟩⦄ := by
  mvcgen [compileElse]

@[scoped spec] theorem compileThen_ordered :
    ⦃fun s => ⌜s.Ordered⌝⦄ compileThen ⦃post⟨fun _ s => ⌜s.Ordered⌝, fun _ s => ⌜s.Ordered⌝⟩⦄ := by
  mvcgen [compileThen]

@[scoped spec] theorem compileBegin_ordered :
    ⦃fun s => ⌜s.Ordered⌝⦄ compileBegin ⦃post⟨fun _ s => ⌜s.Ordered⌝, fun _ s => ⌜s.Ordered⌝⟩⦄ := by
  mvcgen [compileBegin]

@[scoped spec] theorem compileUntil_ordered :
    ⦃fun s => ⌜s.Ordered⌝⦄ compileUntil ⦃post⟨fun _ s => ⌜s.Ordered⌝, fun _ s => ⌜s.Ordered⌝⟩⦄ := by
  mvcgen [compileUntil]

@[scoped spec] theorem compileAgain_ordered :
    ⦃fun s => ⌜s.Ordered⌝⦄ compileAgain ⦃post⟨fun _ s => ⌜s.Ordered⌝, fun _ s => ⌜s.Ordered⌝⟩⦄ := by
  mvcgen [compileAgain]

@[scoped spec] theorem compileWhile_ordered :
    ⦃fun s => ⌜s.Ordered⌝⦄ compileWhile ⦃post⟨fun _ s => ⌜s.Ordered⌝, fun _ s => ⌜s.Ordered⌝⟩⦄ := by
  mvcgen [compileWhile]

@[scoped spec] theorem compileRepeat_ordered :
    ⦃fun s => ⌜s.Ordered⌝⦄ compileRepeat ⦃post⟨fun _ s => ⌜s.Ordered⌝, fun _ s => ⌜s.Ordered⌝⟩⦄ := by
  mvcgen [compileRepeat]

@[scoped spec] theorem compileDo_ordered :
    ⦃fun s => ⌜s.Ordered⌝⦄ compileDo ⦃post⟨fun _ s => ⌜s.Ordered⌝, fun _ s => ⌜s.Ordered⌝⟩⦄ := by
  mvcgen [compileDo]

@[scoped spec] theorem closeLoop_ordered (k : TokenKind) :
    ⦃fun s => ⌜s.Ordered⌝⦄ closeLoop k ⦃post⟨fun _ s => ⌜s.Ordered⌝, fun _ s => ⌜s.Ordered⌝⟩⦄ := by
  mvcgen [closeLoop]

@[scoped spec] theorem pushFromReturn_ordered (n : UInt32) :
    ⦃fun s => ⌜s.Ordered⌝⦄ pushFromReturn n ⦃post⟨fun _ s => ⌜s.Ordered⌝, fun _ s => ⌜s.Ordered⌝⟩⦄ := by
  mvcgen [pushFromReturn]

@[scoped spec] theorem leaveLoop_ordered :
    ⦃fun s => ⌜s.Ordered⌝⦄ leaveLoop ⦃post⟨fun _ s => ⌜s.Ordered⌝, fun _ s => ⌜s.Ordered⌝⟩⦄ := by
  mvcgen [leaveLoop]

@[scoped spec] theorem compileString_ordered (text : Bytes) :
    ⦃fun s => ⌜s.Ordered⌝⦄ printString.compileString text ⦃post⟨fun _ s => ⌜s.Ordered⌝, fun _ s => ⌜s.Ordered⌝⟩⦄ := by
  mvcgen [printString.compileString]

@[scoped spec] theorem printString_ordered :
    ⦃fun s => ⌜s.Ordered⌝⦄ printString ⦃post⟨fun _ s => ⌜s.Ordered⌝, fun _ s => ⌜s.Ordered⌝⟩⦄ := by
  mvcgen [printString]

@[scoped spec] theorem stringLiteral_ordered :
    ⦃fun s => ⌜s.Ordered⌝⦄ stringLiteral ⦃post⟨fun _ s => ⌜s.Ordered⌝, fun _ s => ⌜s.Ordered⌝⟩⦄ := by
  mvcgen [stringLiteral]

@[scoped spec] theorem parseChar_ordered :
    ⦃fun s => ⌜s.Ordered⌝⦄ parseChar ⦃post⟨fun _ s => ⌜s.Ordered⌝, fun _ s => ⌜s.Ordered⌝⟩⦄ := by
  mvcgen [parseChar]

@[scoped spec] theorem defineData_ordered (c : Bool) (v size : UInt32) :
    ⦃fun s => ⌜s.Ordered⌝⦄ defineData c v size ⦃post⟨fun _ s => ⌜s.Ordered⌝, fun _ s => ⌜s.Ordered⌝⟩⦄ := by
  mvcgen [defineData]
  exact (‹_ ∧ _›).1

@[scoped spec] theorem allotSpace_ordered :
    ⦃fun s => ⌜s.Ordered⌝⦄ allotSpace ⦃post⟨fun _ s => ⌜s.Ordered⌝, fun _ s => ⌜s.Ordered⌝⟩⦄ := by
  mvcgen [allotSpace]
  rename_i hs _ _ hcheck
  simp only [Bool.or_eq_true, decide_eq_true_eq, not_or] at hcheck
  exact hs.giveBack hcheck.1 hcheck.2

@[scoped spec] theorem compileByte_ordered :
    ⦃fun s => ⌜s.Ordered⌝⦄ compileByte ⦃post⟨fun _ s => ⌜s.Ordered⌝, fun _ s => ⌜s.Ordered⌝⟩⦄ := by
  mvcgen [compileByte]

@[scoped spec] theorem beginDefinition_ordered :
    ⦃fun s => ⌜s.Ordered⌝⦄ beginDefinition ⦃post⟨fun _ s => ⌜s.Ordered⌝, fun _ s => ⌜s.Ordered⌝⟩⦄ := by
  mvcgen [beginDefinition]
  rename_i hs₁ _ _ _ _ hs _
  obtain ⟨hs, rfl⟩ := hs
  exact hs.record hs₁.latest

@[scoped spec] theorem compilerWord_ordered (w : CompilerWord) :
    ⦃fun s => ⌜s.Ordered⌝⦄ w.run ⦃post⟨fun _ s => ⌜s.Ordered⌝, fun _ s => ⌜s.Ordered⌝⟩⦄ := by
  cases w <;> mvcgen [CompilerWord.run]

@[scoped spec] theorem shuffleCells_ordered (arity : Nat) (perm : List Nat) :
    ⦃fun s => ⌜s.Ordered⌝⦄ shuffleCells arity perm ⦃post⟨fun _ s => ⌜s.Ordered⌝, fun _ s => ⌜s.Ordered⌝⟩⦄ := by
  mvcgen [shuffleCells]

@[scoped spec] theorem divideCells_ordered (d : DivisionResult) :
    ⦃fun s => ⌜s.Ordered⌝⦄ divideCells d ⦃post⟨fun _ s => ⌜s.Ordered⌝, fun _ s => ⌜s.Ordered⌝⟩⦄ := by
  mvcgen [divideCells]

@[scoped spec] theorem formatCell_ordered (v : UInt32) (u : Bool) :
    ⦃fun s => ⌜s.Ordered⌝⦄ formatCell v u ⦃post⟨fun _ s => ⌜s.Ordered⌝, fun _ s => ⌜s.Ordered⌝⟩⦄ := by
  mvcgen [formatCell]

@[scoped spec] theorem callWord_ordered (h : UInt32) :
    ⦃fun s => ⌜s.Ordered⌝⦄ callWord h ⦃post⟨fun _ s => ⌜s.Ordered⌝, fun _ s => ⌜s.Ordered⌝⟩⦄ := by
  mvcgen [callWord]

@[scoped spec] theorem writeSpacesGo_ordered (n fuel : Nat) :
    ⦃fun s => ⌜s.Ordered⌝⦄ writeSpaces.go n fuel ⦃post⟨fun _ s => ⌜s.Ordered⌝, fun _ s => ⌜s.Ordered⌝⟩⦄ := by
  induction fuel generalizing n with
  | zero => mvcgen [writeSpaces.go]
  | succ fuel ih => mvcgen [writeSpaces.go, ih]

@[scoped spec] theorem writeSpaces_ordered (n : Int) :
    ⦃fun s => ⌜s.Ordered⌝⦄ writeSpaces n ⦃post⟨fun _ s => ⌜s.Ordered⌝, fun _ s => ⌜s.Ordered⌝⟩⦄ := by
  mvcgen [writeSpaces]

@[scoped spec] theorem libraryWord_ordered (w : LibraryWord) :
    ⦃fun s => ⌜s.Ordered⌝⦄ w.run ⦃post⟨fun _ s => ⌜s.Ordered⌝, fun _ s => ⌜s.Ordered⌝⟩⦄ := by
  cases w
  case dotS =>
    mvcgen [LibraryWord.run] invariants
    | inv1 => post⟨fun _ s => ⌜s.Ordered⌝, fun _ s => ⌜s.Ordered⌝⟩
  all_goals mvcgen [LibraryWord.run]

@[scoped spec] theorem withCache_ordered {α : Type} (op : CacheM Disk α) :
    ⦃fun s => ⌜s.Ordered⌝⦄ withCache op ⦃post⟨fun _ s => ⌜s.Ordered⌝, fun _ s => ⌜s.Ordered⌝⟩⦄ := by
  mvcgen [withCache]

@[scoped spec] theorem popBlockIndex_ordered :
    ⦃fun s => ⌜s.Ordered⌝⦄ popBlockIndex ⦃post⟨fun _ s => ⌜s.Ordered⌝, fun _ s => ⌜s.Ordered⌝⟩⦄ := by
  mvcgen [popBlockIndex]

@[scoped spec] theorem blockAddr_ordered (f : UInt16 → CacheM Disk UInt32) :
    ⦃fun s => ⌜s.Ordered⌝⦄ blockAddr f ⦃post⟨fun _ s => ⌜s.Ordered⌝, fun _ s => ⌜s.Ordered⌝⟩⦄ := by
  mvcgen [blockAddr]

@[scoped spec] theorem blockWord_ordered (w : BlockWord) :
    ⦃fun s => ⌜s.Ordered⌝⦄ w.run ⦃post⟨fun _ s => ⌜s.Ordered⌝, fun _ s => ⌜s.Ordered⌝⟩⦄ := by
  cases w <;> mvcgen [BlockWord.run]

@[scoped spec] theorem fetchCode_ordered (pos : UInt32) :
    ⦃fun s => ⌜s.Ordered⌝⦄ fetchCode pos ⦃post⟨fun _ s => ⌜s.Ordered⌝, fun _ s => ⌜s.Ordered⌝⟩⦄ := by
  mvcgen [fetchCode]

@[scoped spec] theorem nextOperand_ordered :
    ⦃fun s => ⌜s.Ordered⌝⦄ nextOperand ⦃post⟨fun _ s => ⌜s.Ordered⌝, fun _ s => ⌜s.Ordered⌝⟩⦄ := by
  mvcgen [nextOperand]

@[scoped spec] theorem hostAction_ordered (a : HostAction) :
    ⦃fun s => ⌜s.Ordered⌝⦄ a.run ⦃post⟨fun _ s => ⌜s.Ordered⌝, fun _ s => ⌜s.Ordered⌝⟩⦄ := by
  cases a <;> mvcgen [HostAction.run]

@[scoped spec] theorem action_ordered (a : Action) :
    ⦃fun s => ⌜s.Ordered⌝⦄ a.run ⦃post⟨fun _ s => ⌜s.Ordered⌝, fun _ s => ⌜s.Ordered⌝⟩⦄ := by
  cases a <;> mvcgen [Action.run]

@[scoped spec] theorem callPrim_ordered (idx : UInt32) :
    ⦃fun s => ⌜s.Ordered⌝⦄ callPrim idx ⦃post⟨fun _ s => ⌜s.Ordered⌝, fun _ s => ⌜s.Ordered⌝⟩⦄ := by
  mvcgen [callPrim]

@[scoped spec] theorem enterLoop_ordered :
    ⦃fun s => ⌜s.Ordered⌝⦄ enterLoop ⦃post⟨fun _ s => ⌜s.Ordered⌝, fun _ s => ⌜s.Ordered⌝⟩⦄ := by
  mvcgen [enterLoop]

@[scoped spec] theorem stepLoop_ordered (step : UInt32) :
    ⦃fun s => ⌜s.Ordered⌝⦄ stepLoop step ⦃post⟨fun _ s => ⌜s.Ordered⌝, fun _ s => ⌜s.Ordered⌝⟩⦄ := by
  mvcgen [stepLoop]

@[scoped spec] theorem dispatch_ordered (base pos code : UInt32) :
    ⦃fun s => ⌜s.Ordered⌝⦄ dispatch base pos code ⦃post⟨fun _ s => ⌜s.Ordered⌝, fun _ s => ⌜s.Ordered⌝⟩⦄ := by
  mvcgen [dispatch]

@[scoped spec] theorem parseLiteral_ordered (tok : Bytes) :
    ⦃fun s => ⌜s.Ordered⌝⦄ parseLiteral tok ⦃post⟨fun _ s => ⌜s.Ordered⌝, fun _ s => ⌜s.Ordered⌝⟩⦄ := by
  mvcgen [parseLiteral]

@[scoped spec] theorem fetchToken_ordered (limit : StepLimit) :
    ⦃fun s => ⌜s.Ordered⌝⦄ fetchToken limit ⦃post⟨fun _ s => ⌜s.Ordered⌝, fun _ s => ⌜s.Ordered⌝⟩⦄ := by
  mvcgen [fetchToken]

@[scoped spec] theorem step_ordered (limit : StepLimit) (base : UInt32) :
    ⦃fun s => ⌜s.Ordered⌝⦄ step limit base ⦃post⟨fun _ s => ⌜s.Ordered⌝, fun _ s => ⌜s.Ordered⌝⟩⦄ := by
  mvcgen [step]

@[scoped spec] theorem runSteps_ordered (limit : StepLimit) (base : UInt32) (fuel : Nat) :
    ⦃fun s => ⌜s.Ordered⌝⦄ runSteps limit base fuel ⦃post⟨fun _ s => ⌜s.Ordered⌝, fun _ s => ⌜s.Ordered⌝⟩⦄ := by
  induction fuel with
  | zero => mvcgen [runSteps]
  | succ fuel ih => mvcgen [runSteps, ih]

@[scoped spec] theorem runWord_ordered (limit : StepLimit) (h : UInt32) :
    ⦃fun s => ⌜s.Ordered⌝⦄ runWord limit h ⦃post⟨fun _ s => ⌜s.Ordered⌝, fun _ s => ⌜s.Ordered⌝⟩⦄ := by
  mvcgen [runWord]

@[scoped spec] theorem interpretToken_ordered (limit : StepLimit) (tok : Bytes) :
    ⦃fun s => ⌜s.Ordered⌝⦄ interpretToken limit tok ⦃post⟨fun _ s => ⌜s.Ordered⌝, fun _ s => ⌜s.Ordered⌝⟩⦄ := by
  mvcgen [interpretToken]

@[scoped spec] theorem interpret_ordered (limit : StepLimit) (fuel : Nat) :
    ⦃fun s => ⌜s.Ordered⌝⦄ interpret limit fuel ⦃post⟨fun _ s => ⌜s.Ordered⌝, fun _ s => ⌜s.Ordered⌝⟩⦄ := by
  induction fuel with
  | zero => mvcgen [interpret]
  | succ fuel ih => mvcgen [interpret, ih]

@[scoped spec] theorem installPrimitive_ordered (p : Primitive) :
    ⦃fun s => ⌜s.Ordered⌝⦄ installPrimitive p ⦃post⟨fun _ s => ⌜s.Ordered⌝, fun _ s => ⌜s.Ordered⌝⟩⦄ := by
  mvcgen [installPrimitive]
  exact (‹_ ∧ _›).1

@[scoped spec] theorem installAll_ordered (ps : List Primitive) :
    ⦃fun s => ⌜s.Ordered⌝⦄ installAll ps ⦃post⟨fun _ s => ⌜s.Ordered⌝, fun _ s => ⌜s.Ordered⌝⟩⦄ := by
  induction ps with
  | nil => mvcgen [installAll]
  | cons p ps ih =>
    have h : installAll (p :: ps) = (do installPrimitive p; installAll ps) := rfl
    rw [h]
    mvcgen [ih]

@[scoped spec] theorem checkSettings_ordered (st : Settings) :
    ⦃fun s => ⌜s.Ordered⌝⦄ checkSettings st ⦃post⟨fun _ s => ⌜s.Ordered⌝, fun _ s => ⌜s.Ordered⌝⟩⦄ := by
  mvcgen [checkSettings]

@[scoped spec] theorem layOut_ordered :
    ⦃fun s => ⌜s.Ordered⌝⦄ layOut ⦃post⟨fun _ s => ⌜s.Ordered⌝, fun _ s => ⌜s.Ordered⌝⟩⦄ := by
  mvcgen [layOut]
  all_goals exact Cursors.Ordered.empty ‹_› dictBase

@[scoped spec] theorem reset_ordered :
    ⦃fun s => ⌜s.Ordered⌝⦄ reset ⦃post⟨fun _ s => ⌜s.Ordered⌝, fun _ s => ⌜s.Ordered⌝⟩⦄ := by
  mvcgen [reset]

@[scoped spec] theorem peekCell_ordered (n : Int) :
    ⦃fun s => ⌜s.Ordered⌝⦄ peekCell n ⦃post⟨fun _ s => ⌜s.Ordered⌝, fun _ s => ⌜s.Ordered⌝⟩⦄ := by
  mvcgen [peekCell]

@[scoped spec] theorem flushOutput_ordered :
    ⦃fun s => ⌜s.Ordered⌝⦄ flushOutput ⦃post⟨fun _ s => ⌜s.Ordered⌝, fun _ s => ⌜s.Ordered⌝⟩⦄ := by
  mvcgen [flushOutput]

/-- An operation that keeps the order keeps it from the state its run started in. -/
theorem ordered_run {α : Type} {x : Vm α}
    (hx : ⦃fun s => ⌜s.Ordered⌝⦄ x ⦃post⟨fun _ s => ⌜s.Ordered⌝, fun _ s => ⌜s.Ordered⌝⟩⦄)
    {s : Machine} (h : s.Ordered) : (Vm.ended (x.run s)).Ordered :=
  EStateM.of_wp_run_eq rfl (fun res => (Vm.ended res).Ordered) fun _ => hx s h

/-- The state a successful run of such an operation ends in is in order. -/
theorem ordered_of_ok {α : Type} {x : Vm α}
    (hx : ⦃fun s => ⌜s.Ordered⌝⦄ x ⦃post⟨fun _ s => ⌜s.Ordered⌝, fun _ s => ⌜s.Ordered⌝⟩⦄)
    {s t : Machine} {a : α} (h : s.Ordered) (hrun : x.run s = .ok a t) : t.Ordered := by
  have ht := ordered_run hx h
  rwa [hrun] at ht

end Cursors

/-! ## Lines, host calls and sessions -/

@[simp] theorem Machine.cursors_note (m : Machine) (mark : String) (message : Bytes) :
    (m.note mark message).cursors = m.cursors := by
  obtain ⟨t, ht⟩ := m.note_eq mark message
  rw [ht]
  rfl

@[simp] theorem Machine.cursors_noteAbort (m : Machine) (e : MachineError) :
    (m.noteAbort e).cursors = m.cursors := by
  obtain ⟨t, ht⟩ := m.noteAbort_eq e
  rw [ht]
  rfl

@[simp] theorem Machine.cursors_noteFlushFailure (m : Machine) :
    m.noteFlushFailure.cursors = m.cursors := by
  obtain ⟨t, ht⟩ := m.noteFlushFailure_eq
  rw [ht]
  rfl

@[simp] theorem Machine.cursors_lineStart (m : Machine) (line : Bytes) :
    (m.lineStart line).cursors = m.cursors := by
  simp only [Machine.lineStart, Machine.cursors_note]
  rfl

/-- Recovering from a fault abandons the open definition, which keeps the order. -/
theorem Machine.Ordered.recover {m : Machine} (h : m.Ordered) (e : MachineError) :
    (m.recover e).1.Ordered := by
  obtain ⟨t, ht⟩ := m.recover_state e
  rw [ht]
  by_cases hw : m.openWord = 0
  · simp only [hw, if_true]
    exact Cursors.Ordered.close h
  · simp only [hw, if_false]
    exact Cursors.Ordered.restore h

/-- A line keeps the order, whether it faults or not. -/
theorem Machine.Ordered.processLineWithin {m : Machine} (h : m.Ordered) (limit : StepLimit)
    (line : Bytes) : (m.processLineWithin limit line).1.Ordered := by
  have hs : (m.lineStart line).Ordered := by
    simpa only [Machine.Ordered, Machine.cursors_lineStart] using h
  have hrun := Cursors.ordered_run (Cursors.interpret_ordered limit (line.length + 1)) hs
  simp only [Machine.processLineWithin, Machine.lineStart_def]
  split
  · rename_i hok
    rw [hok] at hrun
    split <;> exact hrun
  · rename_i e mf herr
    rw [herr] at hrun
    -- the trace notes around the recovery leave the cursors alone
    have hr := (show (mf.noteAbort e).Ordered by
      simpa only [Machine.Ordered, Machine.cursors_noteAbort, Vm.ended_error] using hrun).recover e
    simpa only [Machine.Ordered, Machine.cursors_noteFlushFailure] using hr

/-- Every host call keeps the order, whatever it answers. -/
theorem Machine.Ordered.perform {m : Machine} (h : m.Ordered) (c : HostCall) :
    (m.perform c).Ordered := by
  cases c with
  | line bs => exact h.processLineWithin _ bs
  | reset => exact Cursors.ordered_run Cursors.reset_ordered h
  | push v => exact Cursors.ordered_run (Cursors.push_ordered .data v) h
  | pop => exact Cursors.ordered_run (Cursors.pop_ordered .data) h
  | peek n => exact Cursors.ordered_run (Cursors.peekCell_ordered n) h
  | load a => exact Cursors.ordered_run (Cursors.loadData_ordered a) h
  | store a v => exact Cursors.ordered_run (Cursors.storData_ordered a v) h
  | flush => exact Cursors.ordered_run Cursors.flushOutput_ordered h

/-- A session keeps the order, call after call. -/
theorem Machine.Ordered.performAll {m : Machine} (h : m.Ordered) (calls : List HostCall) :
    (m.performAll calls).Ordered := by
  induction calls generalizing m with
  | nil => exact h
  | cons c calls ih => exact ih (h.perform c)

/-- A created machine's cursors are in order, whether its layout succeeded or not: the blank
machine has an empty dictionary and no record. -/
theorem Machine.ordered_create (n : Nat) (s : Settings) : (Machine.create n s).1.Ordered := by
  have hb : (Machine.blank n s).Ordered := ⟨.inl rfl, UInt32.le_refl _, .inl rfl⟩
  have h := Cursors.ordered_run Cursors.layOut_ordered hb
  unfold Machine.create
  split <;> rename_i heq <;> rw [heq] at h <;> exact h

/-- Every machine a session reaches from a creation has its cursors in order. -/
theorem performAll_ordered (n : Nat) (s : Settings) (calls : List HostCall) :
    ((Machine.create n s).1.performAll calls).Ordered :=
  (Machine.ordered_create n s).performAll calls

end ForthMachine
