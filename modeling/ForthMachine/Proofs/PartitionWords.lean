import Mathlib
import ForthMachine.Proofs.FixupPairs
import ForthMachine.Proofs.BlockBuffers
import ForthMachine.Proofs.Creation
import ForthMachine.Proofs.RegionAccess

/-!
# Every word keeps the layout

One Hoare triple per operation, `⦃s.Sane L⦄ op ⦃s.Sane L⦄` whether it succeeds or fails,
extends the triples of `PartitionKept` to the compiler, the library, the block words and both
interpreters. A region write that is not a stack's own push or poke goes through `storCell`,
`storByte`, `copyIn` or a stored block buffer, whose triples ask for the written bytes to lie in
the data space (`Layout.InData`); so these triples are where every such write is seen to stay
below the data limit:

* a program's stores pass `checkData`, and the block words store buffers laid out there;
* the compiler writes only cells that `allocate` reserved below the dictionary's limit, the
  flags of a header below `here`, and the sites of fixups, which a pushed fixup records from such
  a cell and a popped one hands back (`pushFixup_sane`, `popFixup_sane`);
* an interpreted `s"` copies its text below the dictionary's limit, which it checks.

The richer triples (`compileCell_inData`, `define_newest`) carry what the compiler needs about
the cells it writes later; they take precedence over the plain ones of `FreshLayout`.
-/

open Std.Do

set_option mvcgen.warning false

namespace ForthMachine

open ForthMachine.Text ForthMachine.Memory ForthMachine.Block

/-! ## Writes the compiler makes -/

namespace Layout

variable (L : Layout)

/-- The flags cell of a header that ends inside the dictionary, or of none, lies in the data
space: with no header it is the cell of the number base. -/
theorem inData_flags {h : UInt32} (hh : h = 0 ∨ h.toNat + 8 ≤ L.dictLimit) :
    L.InData (h + 4) 4 := by
  have hdict := L.dictLimit_ge
  have hlim := L.dictLimit_le
  have hsz := L.size_le
  have hfill := L.fills
  unfold maxRegion at hsz
  rcases hh with rfl | hh
  · simp only [InData, UInt32.zero_add, UInt32.reduceToNat]
    omega
  · have h4 : (h + 4).toNat = h.toNat + 4 := by
      rw [UInt32.toNat_add]
      simp only [UInt32.reduceToNat]
      omega
    simp only [InData, h4]
    omega

/-- A cell compiled at `here` keeps the partition and lies in the data space. -/
@[scoped spec high] theorem compileCell_inData (v : UInt32) :
    ⦃fun s => ⌜s.Sane L⌝⦄ compileCell v
    ⦃post⟨fun a s => ⌜s.Sane L ∧ L.InData a 4⌝, fun _ s => ⌜s.Sane L⌝⟩⦄ :=
  Vm.triple_of_run fun s (hs : s.Sane L) => by
    have hg : 8 ≤ s.here.toNat := hs.here_ge
    have hlim := L.dictLimit_le
    by_cases hk : s.here.toNat + 4 ≤ L.dictLimit
    · obtain ⟨m', hrun, hs', -⟩ := hs.compileCell_run hk v
      rw [hrun]
      exact ⟨hs', by omega, by omega⟩
    · -- no room for the cell: the allocation fails and nothing changes
      have h4 : (alignUp 4).toNat = 4 := by decide
      simp only [compileCell, EStateM.run_bind, Layout.allocate_run L hs, h4, if_pos (by omega : L.dictLimit < s.here.toNat + 4)]
      exact hs

/-- A header appended at `here` becomes the newest word; or `define` finds the dictionary
full and changes nothing. -/
@[scoped spec high] theorem define_newest (name : Bytes) (flags : UInt8) :
    ⦃fun s => ⌜s.Sane L⌝⦄ define name flags
    ⦃post⟨fun h s => ⌜s.Sane L ∧ s.latest = h⌝, fun _ s => ⌜s.Sane L⌝⟩⦄ :=
  Vm.triple_of_run fun s hs => by
    have hrun := define_run hs.dictRoom name flags
    have hn := foldName_length_le s.settings.caseSensitive name
    have hd : s.dictLimit.toNat = L.dictLimit := hs.dictLimit
    dsimp only at hrun
    generalize foldName s.settings.caseSensitive name = name' at hrun hn
    split at hrun
    · rw [hrun]
      exact hs
    · obtain ⟨tr, hrun⟩ := hrun
      rw [hrun]
      exact ⟨hs.addHeader hn (by omega), rfl⟩

/-- Flags are written into a header that ends inside the dictionary, or into the cell of the
number base when there is no header. -/
@[scoped spec] theorem setFlags_sane (h : UInt32) (a b : UInt8) :
    ⦃fun s => ⌜s.Sane L ∧ (h = 0 ∨ h.toNat + 8 ≤ L.dictLimit)⌝⦄ setFlags h a b
    ⦃post⟨fun _ s => ⌜s.Sane L⌝, fun _ s => ⌜s.Sane L⌝⟩⦄ := by
  mvcgen [setFlags]
  case vc1.pre => exact ‹_ ∧ _›.1
  case vc2.post.success =>
    rename_i hpre _ _ hs
    exact ⟨hs, L.inData_flags hpre.2⟩

/-- A token and its operand are compiled at `here`; the operand's cell lies in the data
space. -/
@[scoped spec] theorem compileOperand_sane (k : TokenKind) (v : UInt32) :
    ⦃fun s => ⌜s.Sane L⌝⦄ compileOperand k v
    ⦃post⟨fun a s => ⌜s.Sane L ∧ L.InData a 4⌝, fun _ s => ⌜s.Sane L⌝⟩⦄ := by
  mvcgen [compileOperand] with simp_all only [and_self]

/-- A branch target is written into an operand cell in the data space. -/
@[scoped spec] theorem patch_sane (site target : UInt32) :
    ⦃fun s => ⌜s.Sane L ∧ L.InData site 4⌝⦄ patch site target
    ⦃post⟨fun _ s => ⌜s.Sane L⌝, fun _ s => ⌜s.Sane L⌝⟩⦄ := by
  mvcgen [patch]

/-- A fixup is pushed with its site in the data space if the closing word will patch it. -/
@[scoped spec] theorem pushFixup_sane (k : Fixup) (site : UInt32) :
    ⦃fun s => ⌜s.Sane L ∧ ((Fixup.ofCode k.code).patched → L.InData site 4)⌝⦄ pushFixup k site
    ⦃post⟨fun _ s => ⌜s.Sane L⌝, fun _ s => ⌜s.Sane L⌝⟩⦄ :=
  Vm.triple_of_run fun s ⟨(hs : s.Sane L), hsite⟩ => by
    rw [hs.pushFixup_run k site]
    by_cases hd : s.control.depth = s.control.cap
    · rw [if_pos hd]
      exact hs
    · rw [if_neg hd]
      exact hs.pushedFixup_sane hd hsite

/-- A popped fixup hands back a site in the data space when every kind it accepts is
patched. -/
@[scoped spec] theorem popFixup_sane (want : List Fixup) :
    ⦃fun s => ⌜s.Sane L⌝⦄ popFixup want
    ⦃post⟨fun site s => ⌜s.Sane L ∧ ((∀ k ∈ want, k.patched) → L.InData site 4)⌝,
      fun _ s => ⌜s.Sane L⌝⟩⦄ :=
  Vm.triple_of_run fun s (hs : s.Sane L) => by
    by_cases hw : want.contains s.topFixup
    · by_cases hd : 2 ≤ s.control.depth.toNat
      · rw [hs.popFixup_run hw hd]
        exact ⟨hs.poppedFixup_sane hd, hs.popped_site hw hd⟩
      · -- a control stack of pairs with fewer than two cells is empty: the pop underflows
        have h0 : s.control.depth = 0 := by
          have he : s.control.depth.toNat % 2 = 0 := hs.control_even
          exact UInt32.toNat_inj.mp (by simp; omega)
        simp only [popFixup, EStateM.run_bind, EStateM.run_get, if_pos hw, pop, peek_run,
          Stack.slot, Machine.stack_control, h0]
        simp only [UInt32.lt_irrefl, ↓reduceIte]
        exact hs
    · simp only [popFixup, EStateM.run_bind, EStateM.run_get, hw]
      exact hs

/-- Abandoning a definition restores the cursors its record keeps. -/
@[scoped spec] theorem abandon_sane :
    ⦃fun s => ⌜s.Sane L⌝⦄ abandon ⦃post⟨fun _ s => ⌜s.Sane L⌝, fun _ s => ⌜s.Sane L⌝⟩⦄ :=
  Vm.triple_of_run fun s (hs : s.Sane L) => by
    obtain ⟨t, ht⟩ := abandon_run s
    rw [ht]
    by_cases hw : s.openWord = 0
    · rw [if_pos hw]
      exact hs
    · rw [if_neg hw]
      exact hs.restore hw

@[scoped spec] theorem compileWord_sane (h : UInt32) :
    ⦃fun s => ⌜s.Sane L⌝⦄ compileWord h ⦃post⟨fun _ s => ⌜s.Sane L⌝, fun _ s => ⌜s.Sane L⌝⟩⦄ := by
  mvcgen [compileWord] with simp_all only

/-- `;` clears the hidden flag of the open word, which ends inside the dictionary. -/
@[scoped spec] theorem endDefinition_sane :
    ⦃fun s => ⌜s.Sane L⌝⦄ endDefinition ⦃post⟨fun _ s => ⌜s.Sane L⌝, fun _ s => ⌜s.Sane L⌝⟩⦄ := by
  -- the open word is read before the exit token is compiled: name the first state
  intro s₀ hs₀
  mvcgen [endDefinition]
  case vc4.isFalse.isFalse.post.success.pre => exact ⟨‹_›, hs₀.openWord_room⟩
  case vc6.isFalse.isFalse.post.success.post.success.post.success =>
    rename_i hs _
    exact hs.close

@[scoped spec] theorem makeImmediate_sane :
    ⦃fun s => ⌜s.Sane L⌝⦄ makeImmediate ⦃post⟨fun _ s => ⌜s.Sane L⌝, fun _ s => ⌜s.Sane L⌝⟩⦄ := by
  mvcgen [makeImmediate]
  case vc1 => exact ⟨‹_›, ‹Machine.Sane _ L›.latest_room⟩

@[scoped spec] theorem compileRecurse_sane :
    ⦃fun s => ⌜s.Sane L⌝⦄ compileRecurse ⦃post⟨fun _ s => ⌜s.Sane L⌝, fun _ s => ⌜s.Sane L⌝⟩⦄ := by
  mvcgen [compileRecurse]

@[scoped spec] theorem compileLiteral_sane :
    ⦃fun s => ⌜s.Sane L⌝⦄ compileLiteral ⦃post⟨fun _ s => ⌜s.Sane L⌝, fun _ s => ⌜s.Sane L⌝⟩⦄ := by
  mvcgen [compileLiteral] with simp_all only

@[scoped spec] theorem compileExit_sane :
    ⦃fun s => ⌜s.Sane L⌝⦄ compileExit ⦃post⟨fun _ s => ⌜s.Sane L⌝, fun _ s => ⌜s.Sane L⌝⟩⦄ := by
  mvcgen [compileExit]

@[scoped spec] theorem compileIf_sane :
    ⦃fun s => ⌜s.Sane L⌝⦄ compileIf ⦃post⟨fun _ s => ⌜s.Sane L⌝, fun _ s => ⌜s.Sane L⌝⟩⦄ := by
  mvcgen [compileIf] with simp_all +decide

@[scoped spec] theorem compileElse_sane :
    ⦃fun s => ⌜s.Sane L⌝⦄ compileElse ⦃post⟨fun _ s => ⌜s.Sane L⌝, fun _ s => ⌜s.Sane L⌝⟩⦄ := by
  mvcgen [compileElse] with simp_all +decide

@[scoped spec] theorem compileThen_sane :
    ⦃fun s => ⌜s.Sane L⌝⦄ compileThen ⦃post⟨fun _ s => ⌜s.Sane L⌝, fun _ s => ⌜s.Sane L⌝⟩⦄ := by
  mvcgen [compileThen] with simp_all +decide

@[scoped spec] theorem compileBegin_sane :
    ⦃fun s => ⌜s.Sane L⌝⦄ compileBegin ⦃post⟨fun _ s => ⌜s.Sane L⌝, fun _ s => ⌜s.Sane L⌝⟩⦄ := by
  mvcgen [compileBegin] with simp_all +decide

/-- A count of bytes whose rounded size fits below the dictionary's limit from `a` fits the
data space from `a`, or is too long for the region, which then refuses the copy. -/
theorem copy_room {a : UInt32} {len : Nat} (h8 : 8 ≤ a.toNat)
    (ha : a.toNat + (alignUp len.toUInt32).toNat ≤ L.dictLimit) :
    4 ≤ a.toNat ∧ (a.toNat + len ≤ L.dataLimit ∨ L.size < a.toNat + len) := by
  have hlim := L.dictLimit_le
  have hsz := L.size_le
  unfold maxRegion at hsz
  refine ⟨by omega, ?_⟩
  by_cases hl : len ≤ 2 ^ 32 - 4
  · have hn : len.toUInt32.toNat = len := by simp only [Nat.toUInt32_eq, UInt32.toNat_ofNat']; omega
    have := le_alignUp len.toUInt32 (by omega)
    omega
  · omega

@[scoped spec] theorem compileUntil_sane :
    ⦃fun s => ⌜s.Sane L⌝⦄ compileUntil ⦃post⟨fun _ s => ⌜s.Sane L⌝, fun _ s => ⌜s.Sane L⌝⟩⦄ := by
  mvcgen [compileUntil] with simp_all +decide

@[scoped spec] theorem compileAgain_sane :
    ⦃fun s => ⌜s.Sane L⌝⦄ compileAgain ⦃post⟨fun _ s => ⌜s.Sane L⌝, fun _ s => ⌜s.Sane L⌝⟩⦄ := by
  mvcgen [compileAgain] with simp_all +decide

@[scoped spec] theorem compileWhile_sane :
    ⦃fun s => ⌜s.Sane L⌝⦄ compileWhile ⦃post⟨fun _ s => ⌜s.Sane L⌝, fun _ s => ⌜s.Sane L⌝⟩⦄ := by
  mvcgen [compileWhile] with simp_all +decide

@[scoped spec] theorem compileRepeat_sane :
    ⦃fun s => ⌜s.Sane L⌝⦄ compileRepeat ⦃post⟨fun _ s => ⌜s.Sane L⌝, fun _ s => ⌜s.Sane L⌝⟩⦄ := by
  mvcgen [compileRepeat] with simp_all +decide

@[scoped spec] theorem compileDo_sane :
    ⦃fun s => ⌜s.Sane L⌝⦄ compileDo ⦃post⟨fun _ s => ⌜s.Sane L⌝, fun _ s => ⌜s.Sane L⌝⟩⦄ := by
  mvcgen [compileDo] with simp_all +decide

@[scoped spec] theorem closeLoop_sane (k : TokenKind) :
    ⦃fun s => ⌜s.Sane L⌝⦄ closeLoop k ⦃post⟨fun _ s => ⌜s.Sane L⌝, fun _ s => ⌜s.Sane L⌝⟩⦄ := by
  mvcgen [closeLoop] with simp_all +decide

@[scoped spec] theorem pushFromReturn_sane (n : UInt32) :
    ⦃fun s => ⌜s.Sane L⌝⦄ pushFromReturn n ⦃post⟨fun _ s => ⌜s.Sane L⌝, fun _ s => ⌜s.Sane L⌝⟩⦄ := by
  mvcgen [pushFromReturn]

@[scoped spec] theorem leaveLoop_sane :
    ⦃fun s => ⌜s.Sane L⌝⦄ leaveLoop ⦃post⟨fun _ s => ⌜s.Sane L⌝, fun _ s => ⌜s.Sane L⌝⟩⦄ := by
  mvcgen [leaveLoop]

@[scoped spec] theorem compileString_sane (text : Bytes) :
    ⦃fun s => ⌜s.Sane L⌝⦄ printString.compileString text
    ⦃post⟨fun _ s => ⌜s.Sane L⌝, fun _ s => ⌜s.Sane L⌝⟩⦄ := by
  mvcgen [printString.compileString]
  case vc3.post.success.post.success.pre =>
    obtain ⟨hs, h8, ha⟩ := ‹_ ∧ 8 ≤ _ ∧ _›
    exact ⟨hs, L.copy_room h8 ha⟩
  all_goals simp_all

@[scoped spec] theorem printString_sane :
    ⦃fun s => ⌜s.Sane L⌝⦄ printString ⦃post⟨fun _ s => ⌜s.Sane L⌝, fun _ s => ⌜s.Sane L⌝⟩⦄ := by
  mvcgen [printString]

@[scoped spec] theorem stringLiteral_sane :
    ⦃fun s => ⌜s.Sane L⌝⦄ stringLiteral ⦃post⟨fun _ s => ⌜s.Sane L⌝, fun _ s => ⌜s.Sane L⌝⟩⦄ := by
  mvcgen [stringLiteral]
  case vc4.post.success.isFalse.isFalse.pre =>
    rename_i s hs _ _ _ hroom
    simp +zetaDelta only [gt_iff_lt, not_lt] at hroom
    have hg : 8 ≤ s.here.toNat := hs.here_ge
    have hd : s.dictLimit.toNat = L.dictLimit := hs.dictLimit
    have hlim := L.dictLimit_le
    exact ⟨hs, by omega, .inl (by omega)⟩

@[scoped spec] theorem parseChar_sane :
    ⦃fun s => ⌜s.Sane L⌝⦄ parseChar ⦃post⟨fun _ s => ⌜s.Sane L⌝, fun _ s => ⌜s.Sane L⌝⟩⦄ := by
  mvcgen [parseChar]

@[scoped spec] theorem defineData_sane (c : Bool) (v size : UInt32) :
    ⦃fun s => ⌜s.Sane L⌝⦄ defineData c v size ⦃post⟨fun _ s => ⌜s.Sane L⌝, fun _ s => ⌜s.Sane L⌝⟩⦄ := by
  mvcgen [defineData] with simp_all

@[scoped spec] theorem allotSpace_sane :
    ⦃fun s => ⌜s.Sane L⌝⦄ allotSpace ⦃post⟨fun _ s => ⌜s.Sane L⌝, fun _ s => ⌜s.Sane L⌝⟩⦄ := by
  mvcgen [allotSpace]
  case vc3.post.success.isTrue.isFalse =>
    rename_i hs _ _ hcheck
    simp only [Bool.or_eq_true, decide_eq_true_eq, not_or] at hcheck
    exact hs.giveBack (alignUp_toNat_mod _) hcheck.1 hcheck.2
  all_goals simp_all

@[scoped spec] theorem compileByte_sane :
    ⦃fun s => ⌜s.Sane L⌝⦄ compileByte ⦃post⟨fun _ s => ⌜s.Sane L⌝, fun _ s => ⌜s.Sane L⌝⟩⦄ := by
  mvcgen [compileByte]
  case vc3.post.success.post.success =>
    obtain ⟨hs, h8, ha⟩ := ‹_ ∧ 8 ≤ _ ∧ _›
    have h4 : (alignUp 1).toNat = 4 := by decide
    have hlim := L.dictLimit_le
    exact ⟨hs, by omega, by omega⟩

@[scoped spec] theorem beginDefinition_sane :
    ⦃fun s => ⌜s.Sane L⌝⦄ beginDefinition ⦃post⟨fun _ s => ⌜s.Sane L⌝, fun _ s => ⌜s.Sane L⌝⟩⦄ := by
  mvcgen [beginDefinition]
  case vc4.isFalse.post.success.post.success =>
    rename_i h₀ _ _ _ _ hs _
    obtain ⟨hs, rfl⟩ := hs
    exact hs.record h₀

@[scoped spec] theorem compilerWord_sane (w : CompilerWord) :
    ⦃fun s => ⌜s.Sane L⌝⦄ w.run ⦃post⟨fun _ s => ⌜s.Sane L⌝, fun _ s => ⌜s.Sane L⌝⟩⦄ := by
  cases w <;> mvcgen [CompilerWord.run]
  all_goals exact ‹_ ∧ _›.1

/-! ## The library -/

@[scoped spec] theorem shuffleCells_sane (arity : Nat) (perm : List Nat) :
    ⦃fun s => ⌜s.Sane L⌝⦄ shuffleCells arity perm ⦃post⟨fun _ s => ⌜s.Sane L⌝, fun _ s => ⌜s.Sane L⌝⟩⦄ := by
  mvcgen [shuffleCells]

@[scoped spec] theorem divideCells_sane (d : DivisionResult) :
    ⦃fun s => ⌜s.Sane L⌝⦄ divideCells d ⦃post⟨fun _ s => ⌜s.Sane L⌝, fun _ s => ⌜s.Sane L⌝⟩⦄ := by
  mvcgen [divideCells]

@[scoped spec] theorem formatCell_sane (v : UInt32) (u : Bool) :
    ⦃fun s => ⌜s.Sane L⌝⦄ formatCell v u ⦃post⟨fun _ s => ⌜s.Sane L⌝, fun _ s => ⌜s.Sane L⌝⟩⦄ := by
  mvcgen [formatCell]

@[scoped spec] theorem callWord_sane (h : UInt32) :
    ⦃fun s => ⌜s.Sane L⌝⦄ callWord h ⦃post⟨fun _ s => ⌜s.Sane L⌝, fun _ s => ⌜s.Sane L⌝⟩⦄ := by
  mvcgen [callWord]

@[scoped spec] theorem writeSpacesGo_sane (n fuel : Nat) :
    ⦃fun s => ⌜s.Sane L⌝⦄ writeSpaces.go n fuel ⦃post⟨fun _ s => ⌜s.Sane L⌝, fun _ s => ⌜s.Sane L⌝⟩⦄ := by
  induction fuel generalizing n with
  | zero => mvcgen [writeSpaces.go]
  | succ fuel ih => mvcgen [writeSpaces.go, ih]

@[scoped spec] theorem writeSpaces_sane (n : Int) :
    ⦃fun s => ⌜s.Sane L⌝⦄ writeSpaces n ⦃post⟨fun _ s => ⌜s.Sane L⌝, fun _ s => ⌜s.Sane L⌝⟩⦄ := by
  mvcgen [writeSpaces]

@[scoped spec] theorem libraryWord_sane (w : LibraryWord) :
    ⦃fun s => ⌜s.Sane L⌝⦄ w.run ⦃post⟨fun _ s => ⌜s.Sane L⌝, fun _ s => ⌜s.Sane L⌝⟩⦄ := by
  cases w
  case dotS =>
    mvcgen [LibraryWord.run] invariants
    | inv1 => post⟨fun _ s => ⌜s.Sane L⌝, fun _ s => ⌜s.Sane L⌝⟩
  all_goals mvcgen [LibraryWord.run]
  simp_all

end Layout

/-! ## Block buffers

The buffers are the region's bytes at their slots' places, which lie in the data space. A
cache operation moves blocks between the slots and the device, but never moves a slot. -/

namespace Layout

variable {L : Layout}

/-- Both buffers of a cache lie in the data space and hold a block each. -/
abbrev CacheFits (L : Layout) (c : Cache) : Prop := L.SlotFits c.active ∧ L.SlotFits c.older

theorem SlotFits.of_eq {s s' : Slot} (h : L.SlotFits s) (ha : s'.addr = s.addr)
    (hb : s'.buf.size = s.buf.size) : L.SlotFits s' := by
  unfold SlotFits at h ⊢
  rw [ha, hb]
  exact h

/-- A slot read from the region stays where it was, with a block's bytes. -/
theorem SlotFits.loadSlot {s : Slot} (h : L.SlotFits s) (m : Machine) : L.SlotFits (m.loadSlot s) := by
  have ha : (m.loadSlot s).addr = s.addr := by
    unfold Machine.loadSlot
    split <;> rfl
  exact h.of_eq ha (Eq.trans (m.loadSlot_full h.2.2) h.2.2.symm)

/-- Marking the active block as modified leaves both buffers in place. -/
theorem CacheFits.update {c : Cache} (h : L.CacheFits c) : L.CacheFits c.update := by
  unfold Cache.update
  split <;> exact h

@[scoped spec] theorem writeBackActive_fits :
    ⦃fun st => ⌜L.CacheFits st.1⌝⦄ (writeBackActive : CacheM Disk Unit)
    ⦃post⟨fun _ st => ⌜L.CacheFits st.1⌝, fun _ st => ⌜L.CacheFits st.1⌝⟩⦄ := by
  mvcgen [writeBackActive]
  rename_i hs _ _ _ _ hw
  exact ⟨hs.1.of_eq (writeBack_slot hw).1 (by rw [(writeBack_slot hw).2]), hs.2⟩

@[scoped spec] theorem writeBackOlder_fits :
    ⦃fun st => ⌜L.CacheFits st.1⌝⦄ (writeBackOlder : CacheM Disk Unit)
    ⦃post⟨fun _ st => ⌜L.CacheFits st.1⌝, fun _ st => ⌜L.CacheFits st.1⌝⟩⦄ := by
  mvcgen [writeBackOlder]
  rename_i hs _ _ _ _ hw
  exact ⟨hs.1, hs.2.of_eq (writeBack_slot hw).1 (by rw [(writeBack_slot hw).2])⟩

@[scoped spec] theorem makeSpaceFor_fits (idx : UInt16) :
    ⦃fun st => ⌜L.CacheFits st.1⌝⦄ (makeSpaceFor idx : CacheM Disk Bool)
    ⦃post⟨fun _ st => ⌜L.CacheFits st.1⌝, fun _ st => ⌜L.CacheFits st.1⌝⟩⦄ := by
  mvcgen [makeSpaceFor, modifyCache]
  all_goals exact ‹L.CacheFits _›.symm

/-- Reading a block fills the active buffer in place, to its own size. -/
@[scoped spec] theorem block_fits (idx : UInt16) :
    ⦃fun st => ⌜L.CacheFits st.1⌝⦄ (Cache.block idx : CacheM Disk UInt32)
    ⦃post⟨fun _ st => ⌜L.CacheFits st.1⌝, fun _ st => ⌜L.CacheFits st.1⌝⟩⦄ := by
  mvcgen [Cache.block]
  all_goals
    obtain ⟨ha, ho⟩ := ‹L.CacheFits _›
    exact ⟨ha.of_eq rfl (Disk.size_readBlock _ _ _), ho⟩

@[scoped spec] theorem buffer_fits (idx : UInt16) :
    ⦃fun st => ⌜L.CacheFits st.1⌝⦄ (Cache.buffer idx : CacheM Disk UInt32)
    ⦃post⟨fun _ st => ⌜L.CacheFits st.1⌝, fun _ st => ⌜L.CacheFits st.1⌝⟩⦄ := by
  mvcgen [Cache.buffer, modifyCache]

@[scoped spec] theorem flush_fits :
    ⦃fun st => ⌜L.CacheFits st.1⌝⦄ (Cache.flush : CacheM Disk Unit)
    ⦃post⟨fun _ st => ⌜L.CacheFits st.1⌝, fun _ st => ⌜L.CacheFits st.1⌝⟩⦄ := by
  mvcgen [Cache.flush, modifyCache]

end Layout

namespace Machine.Sane

variable {m : Machine} {L : Layout}

/-- A slot's buffer stored back at its place in the data space keeps the partition. -/
theorem storeSlot (h : m.Sane L) {s : Slot} (hs : L.SlotFits s) :
    { m with region := m.region.storeSlot s }.Sane L := by
  unfold Region.storeSlot
  split
  · exact h
  · obtain ⟨h4, hend, hsize⟩ := hs
    exact h.writeAt h4 (by rw [ByteArray.length_toList]; omega)

/-- A change of the cache that keeps its buffers in the data space keeps the partition. -/
theorem mapCache (h : m.Sane L) {f : Cache → Cache} (hf : ∀ c, L.CacheFits c → L.CacheFits (f c)) :
    { m with cache := m.cache.map f }.Sane L :=
  { h with
    cache := fun c hc => by
      obtain ⟨c₀, h₀, rfl⟩ := Option.map_eq_some_iff.mp hc
      exact hf c₀ (h.cache c₀ h₀) }

/-- A cache whose buffers lie in the data space may replace the machine's. -/
theorem withCache (h : m.Sane L) {c : Cache} (hc : L.CacheFits c) (d : Option Disk) :
    { m with cache := some c, disk := d }.Sane L :=
  { h with
    cache := fun c' hc' => by
      obtain rfl : c = c' := Option.some.inj hc'
      exact hc }

end Machine.Sane

namespace Layout

variable (L : Layout)

/-- A cache operation that keeps the buffers in the data space keeps the partition: the
buffers are read from the region and stored back where they were read. -/
theorem withCache_sane {α : Type} {op : CacheM Disk α}
    (hop : ⦃fun st => ⌜L.CacheFits st.1⌝⦄ op
      ⦃post⟨fun _ st => ⌜L.CacheFits st.1⌝, fun _ st => ⌜L.CacheFits st.1⌝⟩⦄) :
    ⦃fun s => ⌜s.Sane L⌝⦄ withCache op ⦃post⟨fun _ s => ⌜s.Sane L⌝, fun _ s => ⌜s.Sane L⌝⟩⦄ :=
  Vm.triple_of_run fun s (hs : s.Sane L) => by
    simp only [withCache, EStateM.run_bind, EStateM.run_get]
    cases hc : s.cache with
    | none => exact hs
    | some c =>
      have hfit : L.CacheFits c := hs.cache c hc
      have hl : L.CacheFits ⟨s.loadSlot c.active, s.loadSlot c.older⟩ :=
        ⟨hfit.1.loadSlot s, hfit.2.loadSlot s⟩
      have hr := Buffers.cache_run hop (⟨s.loadSlot c.active, s.loadSlot c.older⟩, s.disk) hl
      -- the machine takes the cache the operation left, whether it failed or not
      cases hrun : op.run (⟨s.loadSlot c.active, s.loadSlot c.older⟩, s.disk) with
      | ok a st' =>
        rw [hrun] at hr
        simp only [changeRegion, takeRegion, EStateM.run_bind, EStateM.run_modify,
          EStateM.run_modifyGet, hrun, EStateM.run_pure]
        exact ((hs.withCache hr st'.2).storeSlot hr.1).storeSlot hr.2
      | error e st' =>
        rw [hrun] at hr
        simp only [changeRegion, takeRegion, EStateM.run_bind, EStateM.run_modify,
          EStateM.run_modifyGet, hrun]
        exact ((hs.withCache hr st'.2).storeSlot hr.1).storeSlot hr.2

@[scoped spec] theorem popBlockIndex_sane :
    ⦃fun s => ⌜s.Sane L⌝⦄ popBlockIndex ⦃post⟨fun _ s => ⌜s.Sane L⌝, fun _ s => ⌜s.Sane L⌝⟩⦄ := by
  mvcgen [popBlockIndex]

theorem blockAddr_sane {f : UInt16 → CacheM Disk UInt32}
    (hf : ∀ idx, ⦃fun st => ⌜L.CacheFits st.1⌝⦄ f idx
      ⦃post⟨fun _ st => ⌜L.CacheFits st.1⌝, fun _ st => ⌜L.CacheFits st.1⌝⟩⦄) :
    ⦃fun s => ⌜s.Sane L⌝⦄ blockAddr f ⦃post⟨fun _ s => ⌜s.Sane L⌝, fun _ s => ⌜s.Sane L⌝⟩⦄ := by
  have hw : ∀ idx, ⦃fun s => ⌜s.Sane L⌝⦄ withCache (f idx)
      ⦃post⟨fun _ s => ⌜s.Sane L⌝, fun _ s => ⌜s.Sane L⌝⟩⦄ := fun idx => L.withCache_sane (hf idx)
  mvcgen [blockAddr, hw]

@[scoped spec] theorem blockWord_sane (w : BlockWord) :
    ⦃fun s => ⌜s.Sane L⌝⦄ w.run ⦃post⟨fun _ s => ⌜s.Sane L⌝, fun _ s => ⌜s.Sane L⌝⟩⦄ := by
  have hblock := L.blockAddr_sane block_fits
  have hbuffer := L.blockAddr_sane buffer_fits
  have hflush := L.withCache_sane flush_fits
  cases w <;> mvcgen [BlockWord.run, hblock, hbuffer, hflush]
  case vc1.emptyBuffers => exact Machine.Sane.mapCache ‹_› fun _ h => h
  case vc1.update => exact Machine.Sane.mapCache ‹_› fun _ h => h.update

/-! ## The inner and the outer interpreter -/

@[scoped spec] theorem fetchCode_sane (pos : UInt32) :
    ⦃fun s => ⌜s.Sane L⌝⦄ fetchCode pos ⦃post⟨fun _ s => ⌜s.Sane L⌝, fun _ s => ⌜s.Sane L⌝⟩⦄ := by
  mvcgen [fetchCode]

@[scoped spec] theorem nextOperand_sane :
    ⦃fun s => ⌜s.Sane L⌝⦄ nextOperand ⦃post⟨fun _ s => ⌜s.Sane L⌝, fun _ s => ⌜s.Sane L⌝⟩⦄ := by
  mvcgen [nextOperand]

@[scoped spec] theorem hostAction_sane (a : HostAction) :
    ⦃fun s => ⌜s.Sane L⌝⦄ a.run ⦃post⟨fun _ s => ⌜s.Sane L⌝, fun _ s => ⌜s.Sane L⌝⟩⦄ := by
  cases a <;> mvcgen [HostAction.run]

@[scoped spec] theorem action_sane (a : Action) :
    ⦃fun s => ⌜s.Sane L⌝⦄ a.run ⦃post⟨fun _ s => ⌜s.Sane L⌝, fun _ s => ⌜s.Sane L⌝⟩⦄ := by
  cases a <;> mvcgen [Action.run]

@[scoped spec] theorem callPrim_sane (idx : UInt32) :
    ⦃fun s => ⌜s.Sane L⌝⦄ callPrim idx ⦃post⟨fun _ s => ⌜s.Sane L⌝, fun _ s => ⌜s.Sane L⌝⟩⦄ := by
  mvcgen [callPrim]

@[scoped spec] theorem enterLoop_sane :
    ⦃fun s => ⌜s.Sane L⌝⦄ enterLoop ⦃post⟨fun _ s => ⌜s.Sane L⌝, fun _ s => ⌜s.Sane L⌝⟩⦄ := by
  mvcgen [enterLoop]

@[scoped spec] theorem stepLoop_sane (step : UInt32) :
    ⦃fun s => ⌜s.Sane L⌝⦄ stepLoop step ⦃post⟨fun _ s => ⌜s.Sane L⌝, fun _ s => ⌜s.Sane L⌝⟩⦄ := by
  mvcgen [stepLoop]

@[scoped spec] theorem dispatch_sane (base pos code : UInt32) :
    ⦃fun s => ⌜s.Sane L⌝⦄ dispatch base pos code ⦃post⟨fun _ s => ⌜s.Sane L⌝, fun _ s => ⌜s.Sane L⌝⟩⦄ := by
  mvcgen [dispatch]

@[scoped spec] theorem parseLiteral_sane (tok : Bytes) :
    ⦃fun s => ⌜s.Sane L⌝⦄ parseLiteral tok ⦃post⟨fun _ s => ⌜s.Sane L⌝, fun _ s => ⌜s.Sane L⌝⟩⦄ := by
  mvcgen [parseLiteral]

@[scoped spec] theorem fetchToken_sane (limit : StepLimit) :
    ⦃fun s => ⌜s.Sane L⌝⦄ fetchToken limit ⦃post⟨fun _ s => ⌜s.Sane L⌝, fun _ s => ⌜s.Sane L⌝⟩⦄ := by
  mvcgen [fetchToken]

@[scoped spec] theorem step_sane (limit : StepLimit) (base : UInt32) :
    ⦃fun s => ⌜s.Sane L⌝⦄ step limit base ⦃post⟨fun _ s => ⌜s.Sane L⌝, fun _ s => ⌜s.Sane L⌝⟩⦄ := by
  mvcgen [step]

@[scoped spec] theorem runSteps_sane (limit : StepLimit) (base : UInt32) (fuel : Nat) :
    ⦃fun s => ⌜s.Sane L⌝⦄ runSteps limit base fuel ⦃post⟨fun _ s => ⌜s.Sane L⌝, fun _ s => ⌜s.Sane L⌝⟩⦄ := by
  induction fuel with
  | zero => mvcgen [runSteps]
  | succ fuel ih => mvcgen [runSteps, ih]

@[scoped spec] theorem runWord_sane (limit : StepLimit) (h : UInt32) :
    ⦃fun s => ⌜s.Sane L⌝⦄ runWord limit h ⦃post⟨fun _ s => ⌜s.Sane L⌝, fun _ s => ⌜s.Sane L⌝⟩⦄ := by
  mvcgen [runWord]

@[scoped spec] theorem interpretToken_sane (limit : StepLimit) (tok : Bytes) :
    ⦃fun s => ⌜s.Sane L⌝⦄ interpretToken limit tok ⦃post⟨fun _ s => ⌜s.Sane L⌝, fun _ s => ⌜s.Sane L⌝⟩⦄ := by
  mvcgen [interpretToken]
  exact ‹_ ∧ _›.1

@[scoped spec] theorem interpret_sane (limit : StepLimit) (fuel : Nat) :
    ⦃fun s => ⌜s.Sane L⌝⦄ interpret limit fuel ⦃post⟨fun _ s => ⌜s.Sane L⌝, fun _ s => ⌜s.Sane L⌝⟩⦄ := by
  induction fuel with
  | zero => mvcgen [interpret]
  | succ fuel ih => mvcgen [interpret, ih]

@[scoped spec] theorem peekCell_sane (n : Int) :
    ⦃fun s => ⌜s.Sane L⌝⦄ peekCell n ⦃post⟨fun _ s => ⌜s.Sane L⌝, fun _ s => ⌜s.Sane L⌝⟩⦄ := by
  mvcgen [peekCell]

@[scoped spec] theorem flushOutput_sane :
    ⦃fun s => ⌜s.Sane L⌝⦄ flushOutput ⦃post⟨fun _ s => ⌜s.Sane L⌝, fun _ s => ⌜s.Sane L⌝⟩⦄ := by
  mvcgen [flushOutput]

/-- An operation that keeps the partition keeps it from every state it may start in. -/
theorem sane_run {α : Type} {x : Vm α} {P : Machine → Prop}
    (hx : ⦃fun s => ⌜P s⌝⦄ x ⦃post⟨fun _ s => ⌜s.Sane L⌝, fun _ s => ⌜s.Sane L⌝⟩⦄)
    {s : Machine} (h : P s) : (Vm.ended (x.run s)).Sane L :=
  EStateM.of_wp_run_eq rfl (fun res => (Vm.ended res).Sane L) fun _ => hx s h

end Layout

end ForthMachine
