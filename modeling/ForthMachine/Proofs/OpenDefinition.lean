import Mathlib
import ForthMachine.Machine.Storage
import ForthMachine.Machine.Session

/-!
# The record of the open definition

While a colon definition is being compiled the machine records its header and the values of
`here` and `latest` from before its `:`, so that a fault can abandon the definition and give
its space back. This module shows that nothing but `:` changes that record: every other
operation of the machine keeps it, except that `;` and abandoning may close the definition.

Each operation gets one Hoare triple, `⦃r.Kept⦄ op ⦃r.Kept⦄`, whether it succeeds or fails;
callers are proved from the triples of their callees by `mvcgen`. The ghost `r` is one
`OpenRecord`, so that `mvcgen` instantiates it by unification even inside loop bodies. The
triples are scoped to `OpenRecord`: other proofs about the same operations state other
frames.
-/

open Std.Do

set_option mvcgen.warning false

namespace ForthMachine

open ForthMachine.Text ForthMachine.Memory ForthMachine.Block

/-- What the machine records of the definition being compiled: its header, and `here` and
`latest` from before its `:`. -/
structure OpenRecord where
  word : UInt32
  here : UInt32
  latest : UInt32

/-- The machine's record of its open definition. -/
def Machine.openRecord (m : Machine) : OpenRecord := ⟨m.openWord, m.openHere, m.openLatest⟩

/-- The record `r'` is `r`, except that the definition may have been closed. -/
def OpenRecord.Keeps (r r' : OpenRecord) : Prop :=
  r'.here = r.here ∧ r'.latest = r.latest ∧ (r'.word = r.word ∨ r'.word = 0)

/-- The machine's record is still `r`, except that the definition may have been closed. -/
def OpenRecord.Kept (r : OpenRecord) (m : Machine) : Prop := r.Keeps m.openRecord

@[simp] theorem Machine.openRecord_setStack (m : Machine) (st : StackName) (t : Stack) :
    (m.setStack st t).openRecord = m.openRecord := by
  cases st <;> rfl

namespace OpenRecord

theorem Keeps.refl (r : OpenRecord) : r.Keeps r := ⟨rfl, rfl, .inl rfl⟩

theorem Keeps.trans {r₁ r₂ r₃ : OpenRecord} (h₁ : r₁.Keeps r₂) (h₂ : r₂.Keeps r₃) :
    r₁.Keeps r₃ := by
  obtain ⟨hh₁, hl₁, hw₁⟩ := h₁
  obtain ⟨hh₂, hl₂, hw₂⟩ := h₂
  refine ⟨hh₂.trans hh₁, hl₂.trans hl₁, ?_⟩
  rcases hw₂ with hw₂ | hw₂
  · exact hw₂ ▸ hw₁
  · exact .inr hw₂

variable (r : OpenRecord)

@[scoped spec] theorem trace_kept (mark : String) (msg : Unit → Bytes) :
    ⦃fun s => ⌜r.Kept s⌝⦄ trace mark msg ⦃post⟨fun _ s => ⌜r.Kept s⌝, fun _ s => ⌜r.Kept s⌝⟩⦄ := by
  mvcgen [trace]
  simp_all +zetaDelta [OpenRecord.Kept]
  split <;> simp_all [Machine.openRecord]

@[scoped spec] theorem emitBytes_kept (p : Bytes) :
    ⦃fun s => ⌜r.Kept s⌝⦄ emitBytes p ⦃post⟨fun _ s => ⌜r.Kept s⌝, fun _ s => ⌜r.Kept s⌝⟩⦄ := by
  mvcgen [emitBytes]

@[scoped spec] theorem loadCell_kept (a : UInt32) :
    ⦃fun s => ⌜r.Kept s⌝⦄ loadCell a ⦃post⟨fun _ s => ⌜r.Kept s⌝, fun _ s => ⌜r.Kept s⌝⟩⦄ := by
  mvcgen [loadCell, Vm.ofRegion]

@[scoped spec] theorem changeRegion_kept (f : Region → Region) :
    ⦃fun s => ⌜r.Kept s⌝⦄ changeRegion f ⦃post⟨fun _ s => ⌜r.Kept s⌝, fun _ s => ⌜r.Kept s⌝⟩⦄ := by
  mvcgen [changeRegion, takeRegion]

@[scoped spec] theorem storCell_kept (a v : UInt32) :
    ⦃fun s => ⌜r.Kept s⌝⦄ storCell a v ⦃post⟨fun _ s => ⌜r.Kept s⌝, fun _ s => ⌜r.Kept s⌝⟩⦄ := by
  mvcgen [storCell, Vm.ofRegion]

@[scoped spec] theorem storByte_kept (a : UInt32) (b : UInt8) :
    ⦃fun s => ⌜r.Kept s⌝⦄ storByte a b ⦃post⟨fun _ s => ⌜r.Kept s⌝, fun _ s => ⌜r.Kept s⌝⟩⦄ := by
  mvcgen [storByte, Vm.ofRegion]

@[scoped spec] theorem copyIn_kept (a : UInt32) (bs : Bytes) :
    ⦃fun s => ⌜r.Kept s⌝⦄ copyIn a bs ⦃post⟨fun _ s => ⌜r.Kept s⌝, fun _ s => ⌜r.Kept s⌝⟩⦄ := by
  mvcgen [copyIn, Vm.ofRegion]

@[scoped spec] theorem slice_kept (a : UInt32) (n : Nat) :
    ⦃fun s => ⌜r.Kept s⌝⦄ slice a n ⦃post⟨fun _ s => ⌜r.Kept s⌝, fun _ s => ⌜r.Kept s⌝⟩⦄ := by
  mvcgen [slice, Vm.ofRegion]

@[scoped spec] theorem push_kept (st : StackName) (v : UInt32) :
    ⦃fun s => ⌜r.Kept s⌝⦄ push st v ⦃post⟨fun _ s => ⌜r.Kept s⌝, fun _ s => ⌜r.Kept s⌝⟩⦄ := by
  mvcgen [push]
  simp_all +zetaDelta [OpenRecord.Kept]

@[scoped spec] theorem peek_kept (st : StackName) (n : UInt32) :
    ⦃fun s => ⌜r.Kept s⌝⦄ peek st n ⦃post⟨fun _ s => ⌜r.Kept s⌝, fun _ s => ⌜r.Kept s⌝⟩⦄ := by
  mvcgen [peek, Vm.ofStack]

@[scoped spec] theorem dropCells_kept (st : StackName) (n : UInt32) :
    ⦃fun s => ⌜r.Kept s⌝⦄ dropCells st n ⦃post⟨fun _ s => ⌜r.Kept s⌝, fun _ s => ⌜r.Kept s⌝⟩⦄ := by
  mvcgen [dropCells, Vm.ofStack]
  simp_all +zetaDelta [OpenRecord.Kept]

@[scoped spec] theorem pop_kept (st : StackName) :
    ⦃fun s => ⌜r.Kept s⌝⦄ pop st ⦃post⟨fun _ s => ⌜r.Kept s⌝, fun _ s => ⌜r.Kept s⌝⟩⦄ := by
  mvcgen [pop]

@[scoped spec] theorem poke_kept (st : StackName) (n v : UInt32) :
    ⦃fun s => ⌜r.Kept s⌝⦄ poke st n v ⦃post⟨fun _ s => ⌜r.Kept s⌝, fun _ s => ⌜r.Kept s⌝⟩⦄ := by
  mvcgen [poke, Vm.ofStack]

@[scoped spec] theorem popN_kept (n : Nat) :
    ⦃fun s => ⌜r.Kept s⌝⦄ popN n ⦃post⟨fun _ s => ⌜r.Kept s⌝, fun _ s => ⌜r.Kept s⌝⟩⦄ := by
  mvcgen [popN] invariants
  | inv1 => post⟨fun _ s => ⌜r.Kept s⌝, fun _ s => ⌜r.Kept s⌝⟩
  all_goals simp_all

@[scoped spec] theorem pushAll_kept (vs : List UInt32) :
    ⦃fun s => ⌜r.Kept s⌝⦄ pushAll vs ⦃post⟨fun _ s => ⌜r.Kept s⌝, fun _ s => ⌜r.Kept s⌝⟩⦄ := by
  induction vs with
  | nil => mvcgen [pushAll]
  | cons v vs ih =>
    have h : pushAll (v :: vs) = (do push .data v; pushAll vs) := rfl
    rw [h]
    mvcgen [ih]

@[scoped spec] theorem radix_kept :
    ⦃fun s => ⌜r.Kept s⌝⦄ radix ⦃post⟨fun _ s => ⌜r.Kept s⌝, fun _ s => ⌜r.Kept s⌝⟩⦄ := by
  mvcgen [radix]

@[scoped spec] theorem checkData_kept (a : UInt32) (n : Nat) (acc : Access) :
    ⦃fun s => ⌜r.Kept s⌝⦄ checkData a n acc ⦃post⟨fun _ s => ⌜r.Kept s⌝, fun _ s => ⌜r.Kept s⌝⟩⦄ := by
  mvcgen [checkData]

@[scoped spec] theorem loadData_kept (a : UInt32) :
    ⦃fun s => ⌜r.Kept s⌝⦄ loadData a ⦃post⟨fun _ s => ⌜r.Kept s⌝, fun _ s => ⌜r.Kept s⌝⟩⦄ := by
  mvcgen [loadData]

@[scoped spec] theorem storData_kept (a v : UInt32) :
    ⦃fun s => ⌜r.Kept s⌝⦄ storData a v ⦃post⟨fun _ s => ⌜r.Kept s⌝, fun _ s => ⌜r.Kept s⌝⟩⦄ := by
  mvcgen [storData]

@[scoped spec] theorem dataBytes_kept (a : UInt32) (n : Nat) :
    ⦃fun s => ⌜r.Kept s⌝⦄ dataBytes a n ⦃post⟨fun _ s => ⌜r.Kept s⌝, fun _ s => ⌜r.Kept s⌝⟩⦄ := by
  mvcgen [dataBytes]

@[scoped spec] theorem nextToken_kept :
    ⦃fun s => ⌜r.Kept s⌝⦄ nextToken ⦃post⟨fun _ s => ⌜r.Kept s⌝, fun _ s => ⌜r.Kept s⌝⟩⦄ := by
  mvcgen [nextToken]

@[scoped spec] theorem parseUntil_kept (d : UInt8) :
    ⦃fun s => ⌜r.Kept s⌝⦄ parseUntil d ⦃post⟨fun _ s => ⌜r.Kept s⌝, fun _ s => ⌜r.Kept s⌝⟩⦄ := by
  mvcgen [parseUntil]

@[scoped spec] theorem parseName_kept :
    ⦃fun s => ⌜r.Kept s⌝⦄ parseName ⦃post⟨fun _ s => ⌜r.Kept s⌝, fun _ s => ⌜r.Kept s⌝⟩⦄ := by
  mvcgen [parseName]

@[scoped spec] theorem skipLine_kept :
    ⦃fun s => ⌜r.Kept s⌝⦄ skipLine ⦃post⟨fun _ s => ⌜r.Kept s⌝, fun _ s => ⌜r.Kept s⌝⟩⦄ := by
  mvcgen [skipLine]

@[scoped spec] theorem wordInfo_kept (h : UInt32) :
    ⦃fun s => ⌜r.Kept s⌝⦄ wordInfo h ⦃post⟨fun _ s => ⌜r.Kept s⌝, fun _ s => ⌜r.Kept s⌝⟩⦄ := by
  mvcgen [wordInfo, Vm.ofRegion]

@[scoped spec] theorem allocate_kept (n : UInt32) :
    ⦃fun s => ⌜r.Kept s⌝⦄ allocate n ⦃post⟨fun _ s => ⌜r.Kept s⌝, fun _ s => ⌜r.Kept s⌝⟩⦄ := by
  mvcgen [allocate, Vm.ofRegion]

@[scoped spec] theorem define_kept (name : Bytes) (flags : UInt8) :
    ⦃fun s => ⌜r.Kept s⌝⦄ define name flags ⦃post⟨fun _ s => ⌜r.Kept s⌝, fun _ s => ⌜r.Kept s⌝⟩⦄ := by
  mvcgen [define]

@[scoped spec] theorem setFlags_kept (h : UInt32) (a b : UInt8) :
    ⦃fun s => ⌜r.Kept s⌝⦄ setFlags h a b ⦃post⟨fun _ s => ⌜r.Kept s⌝, fun _ s => ⌜r.Kept s⌝⟩⦄ := by
  mvcgen [setFlags]

@[scoped spec] theorem compileCell_kept (v : UInt32) :
    ⦃fun s => ⌜r.Kept s⌝⦄ compileCell v ⦃post⟨fun _ s => ⌜r.Kept s⌝, fun _ s => ⌜r.Kept s⌝⟩⦄ := by
  mvcgen [compileCell]

@[scoped spec] theorem compileToken_kept (k : TokenKind) (a : UInt32) :
    ⦃fun s => ⌜r.Kept s⌝⦄ compileToken k a ⦃post⟨fun _ s => ⌜r.Kept s⌝, fun _ s => ⌜r.Kept s⌝⟩⦄ := by
  mvcgen [compileToken]

@[scoped spec] theorem compileOperand_kept (k : TokenKind) (a : UInt32) :
    ⦃fun s => ⌜r.Kept s⌝⦄ compileOperand k a ⦃post⟨fun _ s => ⌜r.Kept s⌝, fun _ s => ⌜r.Kept s⌝⟩⦄ := by
  mvcgen [compileOperand]

@[scoped spec] theorem patch_kept (site target : UInt32) :
    ⦃fun s => ⌜r.Kept s⌝⦄ patch site target ⦃post⟨fun _ s => ⌜r.Kept s⌝, fun _ s => ⌜r.Kept s⌝⟩⦄ := by
  mvcgen [patch]

@[scoped spec] theorem pushFixup_kept (k : Fixup) (site : UInt32) :
    ⦃fun s => ⌜r.Kept s⌝⦄ pushFixup k site ⦃post⟨fun _ s => ⌜r.Kept s⌝, fun _ s => ⌜r.Kept s⌝⟩⦄ := by
  mvcgen [pushFixup]

@[scoped spec] theorem popFixup_kept (want : List Fixup) :
    ⦃fun s => ⌜r.Kept s⌝⦄ popFixup want ⦃post⟨fun _ s => ⌜r.Kept s⌝, fun _ s => ⌜r.Kept s⌝⟩⦄ := by
  mvcgen [popFixup]

@[scoped spec] theorem compileWord_kept (h : UInt32) :
    ⦃fun s => ⌜r.Kept s⌝⦄ compileWord h ⦃post⟨fun _ s => ⌜r.Kept s⌝, fun _ s => ⌜r.Kept s⌝⟩⦄ := by
  mvcgen [compileWord]

@[scoped spec] theorem endDefinition_kept :
    ⦃fun s => ⌜r.Kept s⌝⦄ endDefinition ⦃post⟨fun _ s => ⌜r.Kept s⌝, fun _ s => ⌜r.Kept s⌝⟩⦄ := by
  mvcgen [endDefinition]
  simp_all +zetaDelta [OpenRecord.Kept, Machine.openRecord, OpenRecord.Keeps]

@[scoped spec] theorem makeImmediate_kept :
    ⦃fun s => ⌜r.Kept s⌝⦄ makeImmediate ⦃post⟨fun _ s => ⌜r.Kept s⌝, fun _ s => ⌜r.Kept s⌝⟩⦄ := by
  mvcgen [makeImmediate]

@[scoped spec] theorem compileRecurse_kept :
    ⦃fun s => ⌜r.Kept s⌝⦄ compileRecurse ⦃post⟨fun _ s => ⌜r.Kept s⌝, fun _ s => ⌜r.Kept s⌝⟩⦄ := by
  mvcgen [compileRecurse]

@[scoped spec] theorem compileLiteral_kept :
    ⦃fun s => ⌜r.Kept s⌝⦄ compileLiteral ⦃post⟨fun _ s => ⌜r.Kept s⌝, fun _ s => ⌜r.Kept s⌝⟩⦄ := by
  mvcgen [compileLiteral]

@[scoped spec] theorem compileExit_kept :
    ⦃fun s => ⌜r.Kept s⌝⦄ compileExit ⦃post⟨fun _ s => ⌜r.Kept s⌝, fun _ s => ⌜r.Kept s⌝⟩⦄ := by
  mvcgen [compileExit]

@[scoped spec] theorem compileIf_kept :
    ⦃fun s => ⌜r.Kept s⌝⦄ compileIf ⦃post⟨fun _ s => ⌜r.Kept s⌝, fun _ s => ⌜r.Kept s⌝⟩⦄ := by
  mvcgen [compileIf]

@[scoped spec] theorem compileElse_kept :
    ⦃fun s => ⌜r.Kept s⌝⦄ compileElse ⦃post⟨fun _ s => ⌜r.Kept s⌝, fun _ s => ⌜r.Kept s⌝⟩⦄ := by
  mvcgen [compileElse]

@[scoped spec] theorem compileThen_kept :
    ⦃fun s => ⌜r.Kept s⌝⦄ compileThen ⦃post⟨fun _ s => ⌜r.Kept s⌝, fun _ s => ⌜r.Kept s⌝⟩⦄ := by
  mvcgen [compileThen]

@[scoped spec] theorem compileBegin_kept :
    ⦃fun s => ⌜r.Kept s⌝⦄ compileBegin ⦃post⟨fun _ s => ⌜r.Kept s⌝, fun _ s => ⌜r.Kept s⌝⟩⦄ := by
  mvcgen [compileBegin]

@[scoped spec] theorem compileUntil_kept :
    ⦃fun s => ⌜r.Kept s⌝⦄ compileUntil ⦃post⟨fun _ s => ⌜r.Kept s⌝, fun _ s => ⌜r.Kept s⌝⟩⦄ := by
  mvcgen [compileUntil]

@[scoped spec] theorem compileAgain_kept :
    ⦃fun s => ⌜r.Kept s⌝⦄ compileAgain ⦃post⟨fun _ s => ⌜r.Kept s⌝, fun _ s => ⌜r.Kept s⌝⟩⦄ := by
  mvcgen [compileAgain]

@[scoped spec] theorem compileWhile_kept :
    ⦃fun s => ⌜r.Kept s⌝⦄ compileWhile ⦃post⟨fun _ s => ⌜r.Kept s⌝, fun _ s => ⌜r.Kept s⌝⟩⦄ := by
  mvcgen [compileWhile]

@[scoped spec] theorem compileRepeat_kept :
    ⦃fun s => ⌜r.Kept s⌝⦄ compileRepeat ⦃post⟨fun _ s => ⌜r.Kept s⌝, fun _ s => ⌜r.Kept s⌝⟩⦄ := by
  mvcgen [compileRepeat]

@[scoped spec] theorem compileDo_kept :
    ⦃fun s => ⌜r.Kept s⌝⦄ compileDo ⦃post⟨fun _ s => ⌜r.Kept s⌝, fun _ s => ⌜r.Kept s⌝⟩⦄ := by
  mvcgen [compileDo]

@[scoped spec] theorem closeLoop_kept (k : TokenKind) :
    ⦃fun s => ⌜r.Kept s⌝⦄ closeLoop k ⦃post⟨fun _ s => ⌜r.Kept s⌝, fun _ s => ⌜r.Kept s⌝⟩⦄ := by
  mvcgen [closeLoop]

@[scoped spec] theorem pushFromReturn_kept (n : UInt32) :
    ⦃fun s => ⌜r.Kept s⌝⦄ pushFromReturn n ⦃post⟨fun _ s => ⌜r.Kept s⌝, fun _ s => ⌜r.Kept s⌝⟩⦄ := by
  mvcgen [pushFromReturn]

@[scoped spec] theorem leaveLoop_kept :
    ⦃fun s => ⌜r.Kept s⌝⦄ leaveLoop ⦃post⟨fun _ s => ⌜r.Kept s⌝, fun _ s => ⌜r.Kept s⌝⟩⦄ := by
  mvcgen [leaveLoop]

@[scoped spec] theorem compileString_kept (text : Bytes) :
    ⦃fun s => ⌜r.Kept s⌝⦄ printString.compileString text ⦃post⟨fun _ s => ⌜r.Kept s⌝, fun _ s => ⌜r.Kept s⌝⟩⦄ := by
  mvcgen [printString.compileString]

@[scoped spec] theorem printString_kept :
    ⦃fun s => ⌜r.Kept s⌝⦄ printString ⦃post⟨fun _ s => ⌜r.Kept s⌝, fun _ s => ⌜r.Kept s⌝⟩⦄ := by
  mvcgen [printString]

@[scoped spec] theorem stringLiteral_kept :
    ⦃fun s => ⌜r.Kept s⌝⦄ stringLiteral ⦃post⟨fun _ s => ⌜r.Kept s⌝, fun _ s => ⌜r.Kept s⌝⟩⦄ := by
  mvcgen [stringLiteral]

@[scoped spec] theorem parseChar_kept :
    ⦃fun s => ⌜r.Kept s⌝⦄ parseChar ⦃post⟨fun _ s => ⌜r.Kept s⌝, fun _ s => ⌜r.Kept s⌝⟩⦄ := by
  mvcgen [parseChar]

@[scoped spec] theorem defineData_kept (c : Bool) (v size : UInt32) :
    ⦃fun s => ⌜r.Kept s⌝⦄ defineData c v size ⦃post⟨fun _ s => ⌜r.Kept s⌝, fun _ s => ⌜r.Kept s⌝⟩⦄ := by
  mvcgen [defineData]

@[scoped spec] theorem allotSpace_kept :
    ⦃fun s => ⌜r.Kept s⌝⦄ allotSpace ⦃post⟨fun _ s => ⌜r.Kept s⌝, fun _ s => ⌜r.Kept s⌝⟩⦄ := by
  mvcgen [allotSpace]

@[scoped spec] theorem compileByte_kept :
    ⦃fun s => ⌜r.Kept s⌝⦄ compileByte ⦃post⟨fun _ s => ⌜r.Kept s⌝, fun _ s => ⌜r.Kept s⌝⟩⦄ := by
  mvcgen [compileByte]

@[scoped spec] theorem compilerWord_kept (w : CompilerWord) (hw : w ≠ .colon) :
    ⦃fun s => ⌜r.Kept s⌝⦄ w.run ⦃post⟨fun _ s => ⌜r.Kept s⌝, fun _ s => ⌜r.Kept s⌝⟩⦄ := by
  cases w
  case colon => exact absurd rfl hw
  all_goals mvcgen [CompilerWord.run]

@[scoped spec] theorem shuffleCells_kept (arity : Nat) (perm : List Nat) :
    ⦃fun s => ⌜r.Kept s⌝⦄ shuffleCells arity perm ⦃post⟨fun _ s => ⌜r.Kept s⌝, fun _ s => ⌜r.Kept s⌝⟩⦄ := by
  mvcgen [shuffleCells]

@[scoped spec] theorem divideCells_kept (d : DivisionResult) :
    ⦃fun s => ⌜r.Kept s⌝⦄ divideCells d ⦃post⟨fun _ s => ⌜r.Kept s⌝, fun _ s => ⌜r.Kept s⌝⟩⦄ := by
  mvcgen [divideCells]

@[scoped spec] theorem formatCell_kept (v : UInt32) (u : Bool) :
    ⦃fun s => ⌜r.Kept s⌝⦄ formatCell v u ⦃post⟨fun _ s => ⌜r.Kept s⌝, fun _ s => ⌜r.Kept s⌝⟩⦄ := by
  mvcgen [formatCell]

@[scoped spec] theorem callWord_kept (h : UInt32) :
    ⦃fun s => ⌜r.Kept s⌝⦄ callWord h ⦃post⟨fun _ s => ⌜r.Kept s⌝, fun _ s => ⌜r.Kept s⌝⟩⦄ := by
  mvcgen [callWord]

@[scoped spec] theorem writeSpacesGo_kept (n fuel : Nat) :
    ⦃fun s => ⌜r.Kept s⌝⦄ writeSpaces.go n fuel ⦃post⟨fun _ s => ⌜r.Kept s⌝, fun _ s => ⌜r.Kept s⌝⟩⦄ := by
  induction fuel generalizing n with
  | zero => mvcgen [writeSpaces.go]
  | succ fuel ih => mvcgen [writeSpaces.go, ih]

@[scoped spec] theorem writeSpaces_kept (n : Int) :
    ⦃fun s => ⌜r.Kept s⌝⦄ writeSpaces n ⦃post⟨fun _ s => ⌜r.Kept s⌝, fun _ s => ⌜r.Kept s⌝⟩⦄ := by
  mvcgen [writeSpaces]

@[scoped spec] theorem libraryWord_kept (w : LibraryWord) :
    ⦃fun s => ⌜r.Kept s⌝⦄ w.run ⦃post⟨fun _ s => ⌜r.Kept s⌝, fun _ s => ⌜r.Kept s⌝⟩⦄ := by
  cases w
  case dotS =>
    mvcgen [LibraryWord.run] invariants
    | inv1 => post⟨fun _ s => ⌜r.Kept s⌝, fun _ s => ⌜r.Kept s⌝⟩
  case type =>
    mvcgen [LibraryWord.run]
    exact fun _ _ => nofun
  all_goals mvcgen [LibraryWord.run]

@[scoped spec] theorem withCache_kept {α : Type} (op : CacheM Disk α) :
    ⦃fun s => ⌜r.Kept s⌝⦄ withCache op ⦃post⟨fun _ s => ⌜r.Kept s⌝, fun _ s => ⌜r.Kept s⌝⟩⦄ := by
  mvcgen [withCache]

@[scoped spec] theorem popBlockIndex_kept :
    ⦃fun s => ⌜r.Kept s⌝⦄ popBlockIndex ⦃post⟨fun _ s => ⌜r.Kept s⌝, fun _ s => ⌜r.Kept s⌝⟩⦄ := by
  mvcgen [popBlockIndex]

@[scoped spec] theorem blockAddr_kept (f : UInt16 → CacheM Disk UInt32) :
    ⦃fun s => ⌜r.Kept s⌝⦄ blockAddr f ⦃post⟨fun _ s => ⌜r.Kept s⌝, fun _ s => ⌜r.Kept s⌝⟩⦄ := by
  mvcgen [blockAddr]

@[scoped spec] theorem blockWord_kept (w : BlockWord) :
    ⦃fun s => ⌜r.Kept s⌝⦄ w.run ⦃post⟨fun _ s => ⌜r.Kept s⌝, fun _ s => ⌜r.Kept s⌝⟩⦄ := by
  cases w <;> mvcgen [BlockWord.run]

@[scoped spec] theorem fetchCode_kept (pos : UInt32) :
    ⦃fun s => ⌜r.Kept s⌝⦄ fetchCode pos ⦃post⟨fun _ s => ⌜r.Kept s⌝, fun _ s => ⌜r.Kept s⌝⟩⦄ := by
  mvcgen [fetchCode]

@[scoped spec] theorem nextOperand_kept :
    ⦃fun s => ⌜r.Kept s⌝⦄ nextOperand ⦃post⟨fun _ s => ⌜r.Kept s⌝, fun _ s => ⌜r.Kept s⌝⟩⦄ := by
  mvcgen [nextOperand]

@[scoped spec] theorem hostAction_kept (a : HostAction) :
    ⦃fun s => ⌜r.Kept s⌝⦄ a.run ⦃post⟨fun _ s => ⌜r.Kept s⌝, fun _ s => ⌜r.Kept s⌝⟩⦄ := by
  cases a <;> mvcgen [HostAction.run]

@[scoped spec] theorem enterLoop_kept :
    ⦃fun s => ⌜r.Kept s⌝⦄ enterLoop ⦃post⟨fun _ s => ⌜r.Kept s⌝, fun _ s => ⌜r.Kept s⌝⟩⦄ := by
  mvcgen [enterLoop]

@[scoped spec] theorem stepLoop_kept (step : UInt32) :
    ⦃fun s => ⌜r.Kept s⌝⦄ stepLoop step ⦃post⟨fun _ s => ⌜r.Kept s⌝, fun _ s => ⌜r.Kept s⌝⟩⦄ := by
  mvcgen [stepLoop]

@[scoped spec] theorem parseLiteral_kept (tok : Bytes) :
    ⦃fun s => ⌜r.Kept s⌝⦄ parseLiteral tok ⦃post⟨fun _ s => ⌜r.Kept s⌝, fun _ s => ⌜r.Kept s⌝⟩⦄ := by
  mvcgen [parseLiteral]

@[scoped spec] theorem installPrimitive_kept (p : Primitive) :
    ⦃fun s => ⌜r.Kept s⌝⦄ installPrimitive p ⦃post⟨fun _ s => ⌜r.Kept s⌝, fun _ s => ⌜r.Kept s⌝⟩⦄ := by
  mvcgen [installPrimitive]

@[scoped spec] theorem installAll_kept (ps : List Primitive) :
    ⦃fun s => ⌜r.Kept s⌝⦄ installAll ps ⦃post⟨fun _ s => ⌜r.Kept s⌝, fun _ s => ⌜r.Kept s⌝⟩⦄ := by
  induction ps with
  | nil => mvcgen [installAll]
  | cons p ps ih =>
    have h : installAll (p :: ps) = (do installPrimitive p; installAll ps) := rfl
    rw [h]
    mvcgen [ih]

@[scoped spec] theorem checkSettings_kept (st : Settings) :
    ⦃fun s => ⌜r.Kept s⌝⦄ checkSettings st ⦃post⟨fun _ s => ⌜r.Kept s⌝, fun _ s => ⌜r.Kept s⌝⟩⦄ := by
  mvcgen [checkSettings]

/-- Laying the machine out closes any open definition and leaves the rest of the record. -/
@[scoped spec] theorem layOut_kept :
    ⦃fun s => ⌜r.Kept s⌝⦄ layOut ⦃post⟨fun _ s => ⌜r.Kept s⌝, fun _ s => ⌜r.Kept s⌝⟩⦄ := by
  mvcgen [layOut]
  all_goals simp_all +zetaDelta [OpenRecord.Kept, OpenRecord.Keeps, Machine.openRecord]

@[scoped spec] theorem reset_kept :
    ⦃fun s => ⌜r.Kept s⌝⦄ reset ⦃post⟨fun _ s => ⌜r.Kept s⌝, fun _ s => ⌜r.Kept s⌝⟩⦄ := by
  mvcgen [reset]

@[scoped spec] theorem peekCell_kept (n : Int) :
    ⦃fun s => ⌜r.Kept s⌝⦄ peekCell n ⦃post⟨fun _ s => ⌜r.Kept s⌝, fun _ s => ⌜r.Kept s⌝⟩⦄ := by
  mvcgen [peekCell]

@[scoped spec] theorem flushOutput_kept :
    ⦃fun s => ⌜r.Kept s⌝⦄ flushOutput ⦃post⟨fun _ s => ⌜r.Kept s⌝, fun _ s => ⌜r.Kept s⌝⟩⦄ := by
  mvcgen [flushOutput]

/-- Every action but that of `:` keeps the record. -/
theorem action_kept (a : Action) (ha : a ≠ .compiler .colon) :
    ⦃fun s => ⌜r.Kept s⌝⦄ a.run ⦃post⟨fun _ s => ⌜r.Kept s⌝, fun _ s => ⌜r.Kept s⌝⟩⦄ := by
  cases a with
  | compiler w => exact compilerWord_kept r w fun h => ha (h ▸ rfl)
  | library w => exact libraryWord_kept r w
  | blocks w => exact blockWord_kept r w
  | host h => exact hostAction_kept r h

/-- An operation that keeps every record keeps the record of the state its run started in. -/
theorem kept_run {α : Type} {x : Vm α}
    (hx : ∀ r : OpenRecord,
      ⦃fun s => ⌜r.Kept s⌝⦄ x ⦃post⟨fun _ s => ⌜r.Kept s⌝, fun _ s => ⌜r.Kept s⌝⟩⦄)
    (s : Machine) : s.openRecord.Kept (Vm.ended (x.run s)) :=
  EStateM.of_wp_run_eq rfl (fun res => s.openRecord.Kept (Vm.ended res))
    fun _ => hx s.openRecord s (Keeps.refl _)

/-- A host's call other than a line keeps the record. -/
theorem perform_kept (m : Machine) (c : HostCall) (hc : ∀ bs, c ≠ .line bs) :
    m.openRecord.Kept (m.perform c) := by
  cases c with
  | line bs => exact absurd rfl (hc bs)
  | reset => exact kept_run (reset_kept ·) m
  | push v => exact kept_run (push_kept · .data v) m
  | pop => exact kept_run (pop_kept · .data) m
  | peek n => exact kept_run (peekCell_kept · n) m
  | load a => exact kept_run (loadData_kept · a) m
  | store a v => exact kept_run (storData_kept · a v) m
  | flush => exact kept_run (flushOutput_kept ·) m

end OpenRecord

/-- A machine is created with no definition open, whether its layout succeeds or not. -/
theorem Machine.create_openWord (n : Nat) (st : Settings) : (Machine.create n st).1.openWord = 0 := by
  have hk := OpenRecord.kept_run (OpenRecord.layOut_kept ·) (Machine.blank n st)
  have hc : (Machine.create n st).1 = Vm.ended (layOut.run (Machine.blank n st)) := by
    unfold Machine.create
    split <;> simp_all
  rw [hc]
  rcases hk.2.2 with h | h <;> exact h

end ForthMachine
