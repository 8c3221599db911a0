import Mathlib
import ForthMachine.Proofs.LineSplit
import ForthMachine.Proofs.FreshLayout
import ForthMachine.Proofs.FaultRecovery

/-!
# What a machine keeps for good

Once a machine is created, three things about it never change: its settings, the size of its
region, and the channels its output goes to (their kinds, not what has reached them). Every
operation keeps them, whether it succeeds or fails, and so does every line, every host call
and a reset, which lays the region out afresh over the same bytes. `Fixture` records the
three, and a region size that is a whole number of cells, which is what a reset needs to
leave the size as it was.

Each operation gets one Hoare triple, `⦃g.Holds⦄ op ⦃g.Holds⦄`, proved from the triples of its
callees by `mvcgen`; the triples are scoped to `Fixture`, like the other frames stated about
the same operations. From them: a line and a host call keep the fixture (`processLine_fixture`,
`perform_fixture`), and every machine a session reaches from a creation has the settings,
region size and output channels it was created with (`performAll_fixture`).
-/

open Std.Do

set_option mvcgen.warning false

namespace ForthMachine

open ForthMachine.Text ForthMachine.Memory ForthMachine.Block

/-- The kinds of a sink's channels, in order. -/
def Sink.kinds (s : Sink) : List ChannelKind := s.channels.map (·.kind)

/-- Offering bytes to a channel keeps its kind. -/
@[simp] theorem Channel.accept_kind (c : Channel) (p : ByteArray) : (c.accept p).1.kind = c.kind := by
  unfold Channel.accept
  split <;> rfl

theorem writeAll_kinds (p : ByteArray) (cs : List Channel) :
    (writeAll p cs).1.map (·.kind) = cs.map (·.kind) := by
  induction cs with
  | nil => rfl
  | cons c cs ih =>
    simp only [writeAll]
    split
    · simp
    · split
      · simp
      · simp only [List.map_cons, Channel.accept_kind, ih]

/-- Writing to a sink keeps its channels. -/
@[simp] theorem Sink.kinds_write (s : Sink) (p : ByteArray) : (s.write p).1.kinds = s.kinds := by
  unfold Sink.write Sink.kinds
  split
  · rfl
  · simp_all only [List.map_cons, Channel.accept_kind, List.map_nil]
  · simp only [writeAll_kinds]

/-- Forgetting what reached a sink keeps its channels. -/
@[simp] theorem Sink.kinds_drain (s : Sink) : s.drain.kinds = s.kinds := by
  simp only [Sink.kinds, Sink.drain, List.map_map, List.map_inj_left, Function.comp_apply,
    implies_true]

/-- What a machine keeps for good: its settings, its region's size and its output channels. -/
structure Fixture where
  settings : Settings
  size : Nat
  channels : List ChannelKind

/-- The machine's settings, region size and output channels. -/
def Machine.fixture (m : Machine) : Fixture := ⟨m.settings, m.region.bytes.size, m.sink.kinds⟩

/-- The machine has the settings, region size and output channels of `g`, and that size is a
whole number of cells. -/
def Fixture.Holds (g : Fixture) (m : Machine) : Prop := m.fixture = g ∧ g.size % 4 = 0

@[simp] theorem Machine.fixture_setStack (m : Machine) (st : StackName) (t : Stack) :
    (m.setStack st t).fixture = m.fixture := by
  cases st <;> rfl

namespace Fixture

/-- A region of a whole number of cells zeroed afresh keeps its size. -/
theorem Holds.zeroed {g : Fixture} {m : Machine} (h : g.Holds m) :
    g.Holds { m with region := Region.zeroed m.region.bytes.size } := by
  obtain ⟨hm, h4⟩ := h
  subst hm
  refine ⟨?_, h4⟩
  simp only [Machine.fixture, Region.size_zeroed, Fixture.mk.injEq, and_true, true_and]
  exact Nat.div_mul_cancel (Nat.dvd_of_mod_eq_zero h4)

variable (g : Fixture)

@[scoped spec] theorem trace_fixed (mark : String) (msg : Unit → Bytes) :
    ⦃fun s => ⌜g.Holds s⌝⦄ trace mark msg ⦃post⟨fun _ s => ⌜g.Holds s⌝, fun _ s => ⌜g.Holds s⌝⟩⦄ := by
  mvcgen [trace]
  simp_all +zetaDelta only [Fixture.Holds, and_true]
  split <;> simp_all only [Machine.fixture, Bool.not_eq_true]

@[scoped spec] theorem emitBytes_fixed (p : Bytes) :
    ⦃fun s => ⌜g.Holds s⌝⦄ emitBytes p ⦃post⟨fun _ s => ⌜g.Holds s⌝, fun _ s => ⌜g.Holds s⌝⟩⦄ := by
  mvcgen [emitBytes]
  all_goals simp_all +zetaDelta only [Fixture.Holds, Machine.fixture, Sink.kinds_write, and_self]

@[scoped spec] theorem loadCell_fixed (a : UInt32) :
    ⦃fun s => ⌜g.Holds s⌝⦄ loadCell a ⦃post⟨fun _ s => ⌜g.Holds s⌝, fun _ s => ⌜g.Holds s⌝⟩⦄ := by
  mvcgen [loadCell, Vm.ofRegion]

/-- A change of the region that keeps its size. -/
@[scoped spec] theorem changeRegion_fixed (f : Region → Region) :
    ⦃fun s => ⌜g.Holds s ∧ (f s.region).bytes.size = s.region.bytes.size⌝⦄ changeRegion f
    ⦃post⟨fun _ s => ⌜g.Holds s⌝, fun _ s => ⌜g.Holds s⌝⟩⦄ := by
  mvcgen [changeRegion, takeRegion]
  simp_all +zetaDelta only [Fixture.Holds, Machine.fixture, and_self]

@[scoped spec] theorem storCell_fixed (a v : UInt32) :
    ⦃fun s => ⌜g.Holds s⌝⦄ storCell a v ⦃post⟨fun _ s => ⌜g.Holds s⌝, fun _ s => ⌜g.Holds s⌝⟩⦄ :=
  Vm.triple_of_run fun s hs => by
    rw [storCell_run]
    cases hr : s.region.storCell a v with
    | ok r =>
      rw [Region.storCell_eq hr]
      simpa only [Fixture.Holds, Machine.fixture, Region.size_writeAt] using hs
    | error e => exact hs

@[scoped spec] theorem storByte_fixed (a : UInt32) (b : UInt8) :
    ⦃fun s => ⌜g.Holds s⌝⦄ storByte a b ⦃post⟨fun _ s => ⌜g.Holds s⌝, fun _ s => ⌜g.Holds s⌝⟩⦄ := by
  mvcgen [storByte, Vm.ofRegion]
  simp_all only [Region.size_writeAt, and_self]

@[scoped spec] theorem copyIn_fixed (a : UInt32) (bs : Bytes) :
    ⦃fun s => ⌜g.Holds s⌝⦄ copyIn a bs ⦃post⟨fun _ s => ⌜g.Holds s⌝, fun _ s => ⌜g.Holds s⌝⟩⦄ := by
  mvcgen [copyIn, Vm.ofRegion]
  simp_all only [Region.size_writeAt, and_self]

@[scoped spec] theorem slice_fixed (a : UInt32) (n : Nat) :
    ⦃fun s => ⌜g.Holds s⌝⦄ slice a n ⦃post⟨fun _ s => ⌜g.Holds s⌝, fun _ s => ⌜g.Holds s⌝⟩⦄ := by
  mvcgen [slice, Vm.ofRegion]

@[scoped spec] theorem push_fixed (st : StackName) (v : UInt32) :
    ⦃fun s => ⌜g.Holds s⌝⦄ push st v ⦃post⟨fun _ s => ⌜g.Holds s⌝, fun _ s => ⌜g.Holds s⌝⟩⦄ := by
  mvcgen [push]
  all_goals simp_all +zetaDelta only [Fixture.Holds, Bool.not_eq_true, and_true,
    Machine.fixture_setStack, and_self]

@[scoped spec] theorem peek_fixed (st : StackName) (n : UInt32) :
    ⦃fun s => ⌜g.Holds s⌝⦄ peek st n ⦃post⟨fun _ s => ⌜g.Holds s⌝, fun _ s => ⌜g.Holds s⌝⟩⦄ := by
  mvcgen [peek, Vm.ofStack]

@[scoped spec] theorem dropCells_fixed (st : StackName) (n : UInt32) :
    ⦃fun s => ⌜g.Holds s⌝⦄ dropCells st n ⦃post⟨fun _ s => ⌜g.Holds s⌝, fun _ s => ⌜g.Holds s⌝⟩⦄ := by
  mvcgen [dropCells, Vm.ofStack]
  all_goals simp_all +zetaDelta only [Fixture.Holds, Machine.fixture_setStack, and_self]

@[scoped spec] theorem pop_fixed (st : StackName) :
    ⦃fun s => ⌜g.Holds s⌝⦄ pop st ⦃post⟨fun _ s => ⌜g.Holds s⌝, fun _ s => ⌜g.Holds s⌝⟩⦄ := by
  mvcgen [pop]

@[scoped spec] theorem poke_fixed (st : StackName) (n v : UInt32) :
    ⦃fun s => ⌜g.Holds s⌝⦄ poke st n v ⦃post⟨fun _ s => ⌜g.Holds s⌝, fun _ s => ⌜g.Holds s⌝⟩⦄ := by
  mvcgen [poke, Vm.ofStack]

@[scoped spec] theorem popN_fixed (n : Nat) :
    ⦃fun s => ⌜g.Holds s⌝⦄ popN n ⦃post⟨fun _ s => ⌜g.Holds s⌝, fun _ s => ⌜g.Holds s⌝⟩⦄ := by
  mvcgen [popN] invariants
  | inv1 => post⟨fun _ s => ⌜g.Holds s⌝, fun _ s => ⌜g.Holds s⌝⟩
  all_goals simp_all only [Nat.toUInt32_eq, UInt32.not_lt, implies_true]

@[scoped spec] theorem pushAll_fixed (vs : List UInt32) :
    ⦃fun s => ⌜g.Holds s⌝⦄ pushAll vs ⦃post⟨fun _ s => ⌜g.Holds s⌝, fun _ s => ⌜g.Holds s⌝⟩⦄ := by
  induction vs with
  | nil => mvcgen [pushAll]
  | cons v vs ih =>
    have h : pushAll (v :: vs) = (do push .data v; pushAll vs) := rfl
    rw [h]
    mvcgen [ih]

@[scoped spec] theorem radix_fixed :
    ⦃fun s => ⌜g.Holds s⌝⦄ radix ⦃post⟨fun _ s => ⌜g.Holds s⌝, fun _ s => ⌜g.Holds s⌝⟩⦄ := by
  mvcgen [radix]

@[scoped spec] theorem checkData_fixed (a : UInt32) (n : Nat) (acc : Access) :
    ⦃fun s => ⌜g.Holds s⌝⦄ checkData a n acc
    ⦃post⟨fun _ s => ⌜g.Holds s⌝, fun _ s => ⌜g.Holds s⌝⟩⦄ := by
  mvcgen [checkData]

@[scoped spec] theorem loadData_fixed (a : UInt32) :
    ⦃fun s => ⌜g.Holds s⌝⦄ loadData a ⦃post⟨fun _ s => ⌜g.Holds s⌝, fun _ s => ⌜g.Holds s⌝⟩⦄ := by
  mvcgen [loadData]

@[scoped spec] theorem storData_fixed (a v : UInt32) :
    ⦃fun s => ⌜g.Holds s⌝⦄ storData a v ⦃post⟨fun _ s => ⌜g.Holds s⌝, fun _ s => ⌜g.Holds s⌝⟩⦄ := by
  mvcgen [storData]

@[scoped spec] theorem dataBytes_fixed (a : UInt32) (n : Nat) :
    ⦃fun s => ⌜g.Holds s⌝⦄ dataBytes a n ⦃post⟨fun _ s => ⌜g.Holds s⌝, fun _ s => ⌜g.Holds s⌝⟩⦄ := by
  mvcgen [dataBytes]

@[scoped spec] theorem nextToken_fixed :
    ⦃fun s => ⌜g.Holds s⌝⦄ nextToken ⦃post⟨fun _ s => ⌜g.Holds s⌝, fun _ s => ⌜g.Holds s⌝⟩⦄ := by
  mvcgen [nextToken]

@[scoped spec] theorem parseUntil_fixed (d : UInt8) :
    ⦃fun s => ⌜g.Holds s⌝⦄ parseUntil d ⦃post⟨fun _ s => ⌜g.Holds s⌝, fun _ s => ⌜g.Holds s⌝⟩⦄ := by
  mvcgen [parseUntil]

@[scoped spec] theorem parseName_fixed :
    ⦃fun s => ⌜g.Holds s⌝⦄ parseName ⦃post⟨fun _ s => ⌜g.Holds s⌝, fun _ s => ⌜g.Holds s⌝⟩⦄ := by
  mvcgen [parseName]

@[scoped spec] theorem skipLine_fixed :
    ⦃fun s => ⌜g.Holds s⌝⦄ skipLine ⦃post⟨fun _ s => ⌜g.Holds s⌝, fun _ s => ⌜g.Holds s⌝⟩⦄ := by
  mvcgen [skipLine]

@[scoped spec] theorem wordInfo_fixed (h : UInt32) :
    ⦃fun s => ⌜g.Holds s⌝⦄ wordInfo h ⦃post⟨fun _ s => ⌜g.Holds s⌝, fun _ s => ⌜g.Holds s⌝⟩⦄ := by
  mvcgen [wordInfo, Vm.ofRegion]

@[scoped spec] theorem allocate_fixed (n : UInt32) :
    ⦃fun s => ⌜g.Holds s⌝⦄ allocate n ⦃post⟨fun _ s => ⌜g.Holds s⌝, fun _ s => ⌜g.Holds s⌝⟩⦄ := by
  mvcgen [allocate, Vm.ofRegion]
  all_goals simp_all only [Fixture.Holds, Machine.fixture, gt_iff_lt, not_lt, and_self,
    Region.size_fillAt]

@[scoped spec] theorem define_fixed (name : Bytes) (flags : UInt8) :
    ⦃fun s => ⌜g.Holds s⌝⦄ define name flags ⦃post⟨fun _ s => ⌜g.Holds s⌝, fun _ s => ⌜g.Holds s⌝⟩⦄ := by
  mvcgen [define]

@[scoped spec] theorem abandon_fixed :
    ⦃fun s => ⌜g.Holds s⌝⦄ abandon ⦃post⟨fun _ s => ⌜g.Holds s⌝, fun _ s => ⌜g.Holds s⌝⟩⦄ := by
  mvcgen [abandon]

@[scoped spec] theorem setFlags_fixed (h : UInt32) (a b : UInt8) :
    ⦃fun s => ⌜g.Holds s⌝⦄ setFlags h a b ⦃post⟨fun _ s => ⌜g.Holds s⌝, fun _ s => ⌜g.Holds s⌝⟩⦄ := by
  mvcgen [setFlags]

@[scoped spec] theorem compileCell_fixed (v : UInt32) :
    ⦃fun s => ⌜g.Holds s⌝⦄ compileCell v ⦃post⟨fun _ s => ⌜g.Holds s⌝, fun _ s => ⌜g.Holds s⌝⟩⦄ := by
  mvcgen [compileCell]

@[scoped spec] theorem compileToken_fixed (k : TokenKind) (a : UInt32) :
    ⦃fun s => ⌜g.Holds s⌝⦄ compileToken k a ⦃post⟨fun _ s => ⌜g.Holds s⌝, fun _ s => ⌜g.Holds s⌝⟩⦄ := by
  mvcgen [compileToken]

@[scoped spec] theorem compileOperand_fixed (k : TokenKind) (a : UInt32) :
    ⦃fun s => ⌜g.Holds s⌝⦄ compileOperand k a ⦃post⟨fun _ s => ⌜g.Holds s⌝, fun _ s => ⌜g.Holds s⌝⟩⦄ := by
  mvcgen [compileOperand]

@[scoped spec] theorem patch_fixed (site target : UInt32) :
    ⦃fun s => ⌜g.Holds s⌝⦄ patch site target ⦃post⟨fun _ s => ⌜g.Holds s⌝, fun _ s => ⌜g.Holds s⌝⟩⦄ := by
  mvcgen [patch]

@[scoped spec] theorem pushFixup_fixed (k : Fixup) (site : UInt32) :
    ⦃fun s => ⌜g.Holds s⌝⦄ pushFixup k site ⦃post⟨fun _ s => ⌜g.Holds s⌝, fun _ s => ⌜g.Holds s⌝⟩⦄ := by
  mvcgen [pushFixup]

@[scoped spec] theorem popFixup_fixed (want : List Fixup) :
    ⦃fun s => ⌜g.Holds s⌝⦄ popFixup want ⦃post⟨fun _ s => ⌜g.Holds s⌝, fun _ s => ⌜g.Holds s⌝⟩⦄ := by
  mvcgen [popFixup]

@[scoped spec] theorem compileWord_fixed (h : UInt32) :
    ⦃fun s => ⌜g.Holds s⌝⦄ compileWord h ⦃post⟨fun _ s => ⌜g.Holds s⌝, fun _ s => ⌜g.Holds s⌝⟩⦄ := by
  mvcgen [compileWord]

@[scoped spec] theorem endDefinition_fixed :
    ⦃fun s => ⌜g.Holds s⌝⦄ endDefinition ⦃post⟨fun _ s => ⌜g.Holds s⌝, fun _ s => ⌜g.Holds s⌝⟩⦄ := by
  mvcgen [endDefinition]

@[scoped spec] theorem makeImmediate_fixed :
    ⦃fun s => ⌜g.Holds s⌝⦄ makeImmediate ⦃post⟨fun _ s => ⌜g.Holds s⌝, fun _ s => ⌜g.Holds s⌝⟩⦄ := by
  mvcgen [makeImmediate]

@[scoped spec] theorem compileRecurse_fixed :
    ⦃fun s => ⌜g.Holds s⌝⦄ compileRecurse ⦃post⟨fun _ s => ⌜g.Holds s⌝, fun _ s => ⌜g.Holds s⌝⟩⦄ := by
  mvcgen [compileRecurse]

@[scoped spec] theorem compileLiteral_fixed :
    ⦃fun s => ⌜g.Holds s⌝⦄ compileLiteral ⦃post⟨fun _ s => ⌜g.Holds s⌝, fun _ s => ⌜g.Holds s⌝⟩⦄ := by
  mvcgen [compileLiteral]

@[scoped spec] theorem compileExit_fixed :
    ⦃fun s => ⌜g.Holds s⌝⦄ compileExit ⦃post⟨fun _ s => ⌜g.Holds s⌝, fun _ s => ⌜g.Holds s⌝⟩⦄ := by
  mvcgen [compileExit]

@[scoped spec] theorem compileIf_fixed :
    ⦃fun s => ⌜g.Holds s⌝⦄ compileIf ⦃post⟨fun _ s => ⌜g.Holds s⌝, fun _ s => ⌜g.Holds s⌝⟩⦄ := by
  mvcgen [compileIf]

@[scoped spec] theorem compileElse_fixed :
    ⦃fun s => ⌜g.Holds s⌝⦄ compileElse ⦃post⟨fun _ s => ⌜g.Holds s⌝, fun _ s => ⌜g.Holds s⌝⟩⦄ := by
  mvcgen [compileElse]

@[scoped spec] theorem compileThen_fixed :
    ⦃fun s => ⌜g.Holds s⌝⦄ compileThen ⦃post⟨fun _ s => ⌜g.Holds s⌝, fun _ s => ⌜g.Holds s⌝⟩⦄ := by
  mvcgen [compileThen]

@[scoped spec] theorem compileBegin_fixed :
    ⦃fun s => ⌜g.Holds s⌝⦄ compileBegin ⦃post⟨fun _ s => ⌜g.Holds s⌝, fun _ s => ⌜g.Holds s⌝⟩⦄ := by
  mvcgen [compileBegin]

@[scoped spec] theorem compileUntil_fixed :
    ⦃fun s => ⌜g.Holds s⌝⦄ compileUntil ⦃post⟨fun _ s => ⌜g.Holds s⌝, fun _ s => ⌜g.Holds s⌝⟩⦄ := by
  mvcgen [compileUntil]

@[scoped spec] theorem compileAgain_fixed :
    ⦃fun s => ⌜g.Holds s⌝⦄ compileAgain ⦃post⟨fun _ s => ⌜g.Holds s⌝, fun _ s => ⌜g.Holds s⌝⟩⦄ := by
  mvcgen [compileAgain]

@[scoped spec] theorem compileWhile_fixed :
    ⦃fun s => ⌜g.Holds s⌝⦄ compileWhile ⦃post⟨fun _ s => ⌜g.Holds s⌝, fun _ s => ⌜g.Holds s⌝⟩⦄ := by
  mvcgen [compileWhile]

@[scoped spec] theorem compileRepeat_fixed :
    ⦃fun s => ⌜g.Holds s⌝⦄ compileRepeat ⦃post⟨fun _ s => ⌜g.Holds s⌝, fun _ s => ⌜g.Holds s⌝⟩⦄ := by
  mvcgen [compileRepeat]

@[scoped spec] theorem compileDo_fixed :
    ⦃fun s => ⌜g.Holds s⌝⦄ compileDo ⦃post⟨fun _ s => ⌜g.Holds s⌝, fun _ s => ⌜g.Holds s⌝⟩⦄ := by
  mvcgen [compileDo]

@[scoped spec] theorem closeLoop_fixed (k : TokenKind) :
    ⦃fun s => ⌜g.Holds s⌝⦄ closeLoop k ⦃post⟨fun _ s => ⌜g.Holds s⌝, fun _ s => ⌜g.Holds s⌝⟩⦄ := by
  mvcgen [closeLoop]

@[scoped spec] theorem pushFromReturn_fixed (n : UInt32) :
    ⦃fun s => ⌜g.Holds s⌝⦄ pushFromReturn n ⦃post⟨fun _ s => ⌜g.Holds s⌝, fun _ s => ⌜g.Holds s⌝⟩⦄ := by
  mvcgen [pushFromReturn]

@[scoped spec] theorem leaveLoop_fixed :
    ⦃fun s => ⌜g.Holds s⌝⦄ leaveLoop ⦃post⟨fun _ s => ⌜g.Holds s⌝, fun _ s => ⌜g.Holds s⌝⟩⦄ := by
  mvcgen [leaveLoop]

@[scoped spec] theorem compileString_fixed (text : Bytes) :
    ⦃fun s => ⌜g.Holds s⌝⦄ printString.compileString text
    ⦃post⟨fun _ s => ⌜g.Holds s⌝, fun _ s => ⌜g.Holds s⌝⟩⦄ := by
  mvcgen [printString.compileString]

@[scoped spec] theorem printString_fixed :
    ⦃fun s => ⌜g.Holds s⌝⦄ printString ⦃post⟨fun _ s => ⌜g.Holds s⌝, fun _ s => ⌜g.Holds s⌝⟩⦄ := by
  mvcgen [printString]

@[scoped spec] theorem stringLiteral_fixed :
    ⦃fun s => ⌜g.Holds s⌝⦄ stringLiteral ⦃post⟨fun _ s => ⌜g.Holds s⌝, fun _ s => ⌜g.Holds s⌝⟩⦄ := by
  mvcgen [stringLiteral]

@[scoped spec] theorem parseChar_fixed :
    ⦃fun s => ⌜g.Holds s⌝⦄ parseChar ⦃post⟨fun _ s => ⌜g.Holds s⌝, fun _ s => ⌜g.Holds s⌝⟩⦄ := by
  mvcgen [parseChar]

@[scoped spec] theorem defineData_fixed (c : Bool) (v size : UInt32) :
    ⦃fun s => ⌜g.Holds s⌝⦄ defineData c v size ⦃post⟨fun _ s => ⌜g.Holds s⌝, fun _ s => ⌜g.Holds s⌝⟩⦄ := by
  mvcgen [defineData]

@[scoped spec] theorem allotSpace_fixed :
    ⦃fun s => ⌜g.Holds s⌝⦄ allotSpace ⦃post⟨fun _ s => ⌜g.Holds s⌝, fun _ s => ⌜g.Holds s⌝⟩⦄ := by
  mvcgen [allotSpace]

@[scoped spec] theorem compileByte_fixed :
    ⦃fun s => ⌜g.Holds s⌝⦄ compileByte ⦃post⟨fun _ s => ⌜g.Holds s⌝, fun _ s => ⌜g.Holds s⌝⟩⦄ := by
  mvcgen [compileByte]

@[scoped spec] theorem beginDefinition_fixed :
    ⦃fun s => ⌜g.Holds s⌝⦄ beginDefinition ⦃post⟨fun _ s => ⌜g.Holds s⌝, fun _ s => ⌜g.Holds s⌝⟩⦄ := by
  mvcgen [beginDefinition]

@[scoped spec] theorem compilerWord_fixed (w : CompilerWord) :
    ⦃fun s => ⌜g.Holds s⌝⦄ w.run ⦃post⟨fun _ s => ⌜g.Holds s⌝, fun _ s => ⌜g.Holds s⌝⟩⦄ := by
  cases w <;> mvcgen [CompilerWord.run]

@[scoped spec] theorem shuffleCells_fixed (arity : Nat) (perm : List Nat) :
    ⦃fun s => ⌜g.Holds s⌝⦄ shuffleCells arity perm
    ⦃post⟨fun _ s => ⌜g.Holds s⌝, fun _ s => ⌜g.Holds s⌝⟩⦄ := by
  mvcgen [shuffleCells]

@[scoped spec] theorem divideCells_fixed (d : DivisionResult) :
    ⦃fun s => ⌜g.Holds s⌝⦄ divideCells d ⦃post⟨fun _ s => ⌜g.Holds s⌝, fun _ s => ⌜g.Holds s⌝⟩⦄ := by
  mvcgen [divideCells]

@[scoped spec] theorem formatCell_fixed (v : UInt32) (u : Bool) :
    ⦃fun s => ⌜g.Holds s⌝⦄ formatCell v u ⦃post⟨fun _ s => ⌜g.Holds s⌝, fun _ s => ⌜g.Holds s⌝⟩⦄ := by
  mvcgen [formatCell]

@[scoped spec] theorem callWord_fixed (h : UInt32) :
    ⦃fun s => ⌜g.Holds s⌝⦄ callWord h ⦃post⟨fun _ s => ⌜g.Holds s⌝, fun _ s => ⌜g.Holds s⌝⟩⦄ := by
  mvcgen [callWord]

@[scoped spec] theorem writeSpacesGo_fixed (n fuel : Nat) :
    ⦃fun s => ⌜g.Holds s⌝⦄ writeSpaces.go n fuel
    ⦃post⟨fun _ s => ⌜g.Holds s⌝, fun _ s => ⌜g.Holds s⌝⟩⦄ := by
  induction fuel generalizing n with
  | zero => mvcgen [writeSpaces.go]
  | succ fuel ih => mvcgen [writeSpaces.go, ih]

@[scoped spec] theorem writeSpaces_fixed (n : Int) :
    ⦃fun s => ⌜g.Holds s⌝⦄ writeSpaces n ⦃post⟨fun _ s => ⌜g.Holds s⌝, fun _ s => ⌜g.Holds s⌝⟩⦄ := by
  mvcgen [writeSpaces]

@[scoped spec] theorem libraryWord_fixed (w : LibraryWord) :
    ⦃fun s => ⌜g.Holds s⌝⦄ w.run ⦃post⟨fun _ s => ⌜g.Holds s⌝, fun _ s => ⌜g.Holds s⌝⟩⦄ := by
  cases w
  case dotS =>
    mvcgen [LibraryWord.run] invariants
    | inv1 => post⟨fun _ s => ⌜g.Holds s⌝, fun _ s => ⌜g.Holds s⌝⟩
  all_goals mvcgen [LibraryWord.run]

@[scoped spec] theorem withCache_fixed {α : Type} (op : CacheM Disk α) :
    ⦃fun s => ⌜g.Holds s⌝⦄ withCache op ⦃post⟨fun _ s => ⌜g.Holds s⌝, fun _ s => ⌜g.Holds s⌝⟩⦄ := by
  mvcgen [withCache]
  all_goals simp_all +zetaDelta only [Fixture.Holds, Machine.fixture, and_self,
    Region.size_storeSlot]

@[scoped spec] theorem popBlockIndex_fixed :
    ⦃fun s => ⌜g.Holds s⌝⦄ popBlockIndex ⦃post⟨fun _ s => ⌜g.Holds s⌝, fun _ s => ⌜g.Holds s⌝⟩⦄ := by
  mvcgen [popBlockIndex]

@[scoped spec] theorem blockAddr_fixed (f : UInt16 → CacheM Disk UInt32) :
    ⦃fun s => ⌜g.Holds s⌝⦄ blockAddr f ⦃post⟨fun _ s => ⌜g.Holds s⌝, fun _ s => ⌜g.Holds s⌝⟩⦄ := by
  mvcgen [blockAddr]

@[scoped spec] theorem blockWord_fixed (w : BlockWord) :
    ⦃fun s => ⌜g.Holds s⌝⦄ w.run ⦃post⟨fun _ s => ⌜g.Holds s⌝, fun _ s => ⌜g.Holds s⌝⟩⦄ := by
  cases w <;> mvcgen [BlockWord.run]

@[scoped spec] theorem fetchCode_fixed (pos : UInt32) :
    ⦃fun s => ⌜g.Holds s⌝⦄ fetchCode pos ⦃post⟨fun _ s => ⌜g.Holds s⌝, fun _ s => ⌜g.Holds s⌝⟩⦄ := by
  mvcgen [fetchCode]

@[scoped spec] theorem nextOperand_fixed :
    ⦃fun s => ⌜g.Holds s⌝⦄ nextOperand ⦃post⟨fun _ s => ⌜g.Holds s⌝, fun _ s => ⌜g.Holds s⌝⟩⦄ := by
  mvcgen [nextOperand]

@[scoped spec] theorem hostAction_fixed (a : HostAction) :
    ⦃fun s => ⌜g.Holds s⌝⦄ a.run ⦃post⟨fun _ s => ⌜g.Holds s⌝, fun _ s => ⌜g.Holds s⌝⟩⦄ := by
  cases a <;> mvcgen [HostAction.run]

@[scoped spec] theorem action_fixed (a : Action) :
    ⦃fun s => ⌜g.Holds s⌝⦄ a.run ⦃post⟨fun _ s => ⌜g.Holds s⌝, fun _ s => ⌜g.Holds s⌝⟩⦄ := by
  cases a <;> mvcgen [Action.run]

@[scoped spec] theorem callPrim_fixed (idx : UInt32) :
    ⦃fun s => ⌜g.Holds s⌝⦄ callPrim idx ⦃post⟨fun _ s => ⌜g.Holds s⌝, fun _ s => ⌜g.Holds s⌝⟩⦄ := by
  mvcgen [callPrim]

@[scoped spec] theorem enterLoop_fixed :
    ⦃fun s => ⌜g.Holds s⌝⦄ enterLoop ⦃post⟨fun _ s => ⌜g.Holds s⌝, fun _ s => ⌜g.Holds s⌝⟩⦄ := by
  mvcgen [enterLoop]

@[scoped spec] theorem stepLoop_fixed (step : UInt32) :
    ⦃fun s => ⌜g.Holds s⌝⦄ stepLoop step ⦃post⟨fun _ s => ⌜g.Holds s⌝, fun _ s => ⌜g.Holds s⌝⟩⦄ := by
  mvcgen [stepLoop]

@[scoped spec] theorem dispatch_fixed (base pos code : UInt32) :
    ⦃fun s => ⌜g.Holds s⌝⦄ dispatch base pos code
    ⦃post⟨fun _ s => ⌜g.Holds s⌝, fun _ s => ⌜g.Holds s⌝⟩⦄ := by
  mvcgen [dispatch]

@[scoped spec] theorem parseLiteral_fixed (tok : Bytes) :
    ⦃fun s => ⌜g.Holds s⌝⦄ parseLiteral tok ⦃post⟨fun _ s => ⌜g.Holds s⌝, fun _ s => ⌜g.Holds s⌝⟩⦄ := by
  mvcgen [parseLiteral]

@[scoped spec] theorem fetchToken_fixed (limit : StepLimit) :
    ⦃fun s => ⌜g.Holds s⌝⦄ fetchToken limit ⦃post⟨fun _ s => ⌜g.Holds s⌝, fun _ s => ⌜g.Holds s⌝⟩⦄ := by
  mvcgen [fetchToken]

@[scoped spec] theorem step_fixed (limit : StepLimit) (base : UInt32) :
    ⦃fun s => ⌜g.Holds s⌝⦄ step limit base ⦃post⟨fun _ s => ⌜g.Holds s⌝, fun _ s => ⌜g.Holds s⌝⟩⦄ := by
  mvcgen [step]

@[scoped spec] theorem runSteps_fixed (limit : StepLimit) (base : UInt32) (fuel : Nat) :
    ⦃fun s => ⌜g.Holds s⌝⦄ runSteps limit base fuel
    ⦃post⟨fun _ s => ⌜g.Holds s⌝, fun _ s => ⌜g.Holds s⌝⟩⦄ := by
  induction fuel with
  | zero => mvcgen [runSteps]
  | succ fuel ih => mvcgen [runSteps, ih]

@[scoped spec] theorem runWord_fixed (limit : StepLimit) (h : UInt32) :
    ⦃fun s => ⌜g.Holds s⌝⦄ runWord limit h ⦃post⟨fun _ s => ⌜g.Holds s⌝, fun _ s => ⌜g.Holds s⌝⟩⦄ := by
  mvcgen [runWord]

@[scoped spec] theorem interpretToken_fixed (limit : StepLimit) (tok : Bytes) :
    ⦃fun s => ⌜g.Holds s⌝⦄ interpretToken limit tok
    ⦃post⟨fun _ s => ⌜g.Holds s⌝, fun _ s => ⌜g.Holds s⌝⟩⦄ := by
  mvcgen [interpretToken]

@[scoped spec] theorem interpret_fixed (limit : StepLimit) (fuel : Nat) :
    ⦃fun s => ⌜g.Holds s⌝⦄ interpret limit fuel ⦃post⟨fun _ s => ⌜g.Holds s⌝, fun _ s => ⌜g.Holds s⌝⟩⦄ := by
  induction fuel with
  | zero => mvcgen [interpret]
  | succ fuel ih =>
    mvcgen [interpret, ih]

@[scoped spec] theorem installPrimitive_fixed (p : Primitive) :
    ⦃fun s => ⌜g.Holds s⌝⦄ installPrimitive p ⦃post⟨fun _ s => ⌜g.Holds s⌝, fun _ s => ⌜g.Holds s⌝⟩⦄ := by
  mvcgen [installPrimitive]

@[scoped spec] theorem installAll_fixed (ps : List Primitive) :
    ⦃fun s => ⌜g.Holds s⌝⦄ installAll ps ⦃post⟨fun _ s => ⌜g.Holds s⌝, fun _ s => ⌜g.Holds s⌝⟩⦄ := by
  induction ps with
  | nil => mvcgen [installAll]
  | cons p ps ih =>
    have h : installAll (p :: ps) = (do installPrimitive p; installAll ps) := rfl
    rw [h]
    mvcgen [ih]

@[scoped spec] theorem checkSettings_fixed (st : Settings) :
    ⦃fun s => ⌜g.Holds s⌝⦄ checkSettings st ⦃post⟨fun _ s => ⌜g.Holds s⌝, fun _ s => ⌜g.Holds s⌝⟩⦄ := by
  mvcgen [checkSettings]

/-- Laying the machine out afresh zeroes a region of the same size, as it is a whole number of
cells, and keeps the settings and the output. -/
@[scoped spec] theorem layOut_fixed :
    ⦃fun s => ⌜g.Holds s⌝⦄ layOut ⦃post⟨fun _ s => ⌜g.Holds s⌝, fun _ s => ⌜g.Holds s⌝⟩⦄ := by
  mvcgen [layOut]
  case vc1.pre => exact Holds.zeroed ‹_›
  all_goals simp_all +zetaDelta only [Fixture.Holds, Machine.fixture, gt_iff_lt, not_lt,
    Nat.toUInt32_eq, ↓reduceIte, UInt32.ofNat_mul, UInt32.reduceOfNat, Option.ite_none_right_eq_some,
    Option.some.injEq, and_true, and_self, Region.size_storeSlot]

@[scoped spec] theorem reset_fixed :
    ⦃fun s => ⌜g.Holds s⌝⦄ reset ⦃post⟨fun _ s => ⌜g.Holds s⌝, fun _ s => ⌜g.Holds s⌝⟩⦄ := by
  mvcgen [reset]

@[scoped spec] theorem peekCell_fixed (n : Int) :
    ⦃fun s => ⌜g.Holds s⌝⦄ peekCell n ⦃post⟨fun _ s => ⌜g.Holds s⌝, fun _ s => ⌜g.Holds s⌝⟩⦄ := by
  mvcgen [peekCell]

@[scoped spec] theorem flushOutput_fixed :
    ⦃fun s => ⌜g.Holds s⌝⦄ flushOutput ⦃post⟨fun _ s => ⌜g.Holds s⌝, fun _ s => ⌜g.Holds s⌝⟩⦄ := by
  mvcgen [flushOutput]

/-- An operation that keeps every fixture keeps the one of the state its run started in. -/
theorem fixed_run {α : Type} {x : Vm α} {g : Fixture}
    (hx : ⦃fun s => ⌜g.Holds s⌝⦄ x ⦃post⟨fun _ s => ⌜g.Holds s⌝, fun _ s => ⌜g.Holds s⌝⟩⦄)
    {s : Machine} (h : g.Holds s) : g.Holds (Vm.ended (x.run s)) :=
  EStateM.of_wp_run_eq rfl (fun res => g.Holds (Vm.ended res)) fun _ => hx s h

end Fixture

/-! ## Lines, host calls and sessions -/

@[simp] theorem Machine.fixture_note (m : Machine) (mark : String) (message : Bytes) :
    (m.note mark message).fixture = m.fixture := by
  obtain ⟨t, ht⟩ := m.note_eq mark message
  rw [ht]
  rfl

@[simp] theorem Machine.fixture_noteAbort (m : Machine) (e : MachineError) :
    (m.noteAbort e).fixture = m.fixture := by
  obtain ⟨t, ht⟩ := m.noteAbort_eq e
  rw [ht]
  rfl

@[simp] theorem Machine.fixture_noteFlushFailure (m : Machine) :
    m.noteFlushFailure.fixture = m.fixture := by
  obtain ⟨t, ht⟩ := m.noteFlushFailure_eq
  rw [ht]
  rfl

@[simp] theorem Machine.fixture_recover (m : Machine) (e : MachineError) :
    (m.recover e).1.fixture = m.fixture := by
  obtain ⟨t, ht⟩ := m.recover_state e
  rw [ht]
  rfl

@[simp] theorem Machine.fixture_lineStart (m : Machine) (line : Bytes) :
    (m.lineStart line).fixture = m.fixture := by
  simp only [Machine.lineStart, Machine.fixture_note]
  rfl

/-- A line keeps the fixture, whether it faults or not. -/
theorem Fixture.Holds.processLineWithin {g : Fixture} {m : Machine} (h : g.Holds m)
    (limit : StepLimit) (line : Bytes) : g.Holds (m.processLineWithin limit line).1 := by
  have hs : g.Holds (m.lineStart line) := by
    simpa only [Fixture.Holds, Machine.fixture_lineStart] using h
  have hrun := Fixture.fixed_run (Fixture.interpret_fixed g limit (line.length + 1)) hs
  simp only [Machine.processLineWithin, Machine.lineStart_def]
  split
  · rename_i hok
    rw [hok] at hrun
    split <;> exact hrun
  · rename_i e mf herr
    rw [herr] at hrun
    -- the recovery and the trace notes around it leave the fixture alone
    simpa only [Fixture.Holds, Machine.fixture_noteFlushFailure, Machine.fixture_recover,
      Machine.fixture_noteAbort, Vm.ended_error] using hrun

/-- Every host call keeps the fixture, whatever it answers. -/
theorem Fixture.Holds.perform {g : Fixture} {m : Machine} (h : g.Holds m) (c : HostCall) :
    g.Holds (m.perform c) := by
  cases c with
  | line bs => exact h.processLineWithin _ bs
  | reset => exact Fixture.fixed_run (Fixture.reset_fixed g) h
  | push v => exact Fixture.fixed_run (Fixture.push_fixed g .data v) h
  | pop => exact Fixture.fixed_run (Fixture.pop_fixed g .data) h
  | peek n => exact Fixture.fixed_run (Fixture.peekCell_fixed g n) h
  | load a => exact Fixture.fixed_run (Fixture.loadData_fixed g a) h
  | store a v => exact Fixture.fixed_run (Fixture.storData_fixed g a v) h
  | flush => exact Fixture.fixed_run (Fixture.flushOutput_fixed g) h

/-- A session keeps the fixture, call after call. -/
theorem Fixture.Holds.performAll {g : Fixture} {m : Machine} (h : g.Holds m)
    (calls : List HostCall) : g.Holds (m.performAll calls) := by
  induction calls generalizing m with
  | nil => exact h
  | cons c calls ih => exact ih (h.perform c)

/-- What a machine is created with: its settings, a region of `regionSize n` bytes, and the
output channels the settings name. -/
def Fixture.created (n : Nat) (s : Settings) : Fixture := ⟨s, regionSize n, s.sink.kinds⟩

theorem Fixture.holds_blank (n : Nat) (s : Settings) :
    (Fixture.created n s).Holds (Machine.blank n s) := by
  have h4 : regionSize n % 4 = 0 := by
    unfold regionSize
    omega
  refine ⟨?_, h4⟩
  simp only [Machine.fixture, Machine.blank, Region.size_zeroed, Fixture.created, Fixture.mk.injEq,
    and_true, true_and]
  omega

/-- A created machine has the settings, region size and output channels it was created with,
whether its layout succeeded or not. -/
theorem Fixture.holds_create (n : Nat) (s : Settings) :
    (Fixture.created n s).Holds (Machine.create n s).1 := by
  have h := Fixture.fixed_run (Fixture.layOut_fixed (Fixture.created n s)) (Fixture.holds_blank n s)
  unfold Machine.create
  split <;> rename_i heq <;> rw [heq] at h <;> exact h

/-- Every machine a session reaches from a creation has the settings, the region size and the
output channels it was created with. -/
theorem performAll_fixture (n : Nat) (s : Settings) (calls : List HostCall) :
    ((Machine.create n s).1.performAll calls).fixture = ⟨s, regionSize n, s.sink.kinds⟩ :=
  ((Fixture.holds_create n s).performAll calls).1

/-- A machine created over 64 KiB with a budget of one token, on a line that runs `+` twice:
the line takes more tokens than the budget allows. -/
theorem budget_of_one_agrees :
    (Machine.create 65536 { stepBudget := 1 }).1.settings.stepBudget = ((1 : Nat) : Int) ∧
      0 < 1 ∧ 1 ≤ 1 ∧
      BudgetedLine (Machine.create 65536 { stepBudget := 1 }).1 1 1 (Bytes.ofString "1 2 + 3 +") := by
  -- creation keeps the settings, whether the layout succeeds or not
  have h := (Fixture.holds_create 65536 { stepBudget := 1 }).1
  simp only [Machine.fixture, Fixture.created, Fixture.mk.injEq] at h
  have hb : (Machine.create 65536 { stepBudget := 1 }).1.settings.stepBudget = ((1 : Nat) : Int) := by
    rw [h.1]
    rfl
  exact ⟨hb, Nat.one_pos, le_rfl, processLine_budget_agrees hb Nat.one_pos _ le_rfl⟩

end ForthMachine
