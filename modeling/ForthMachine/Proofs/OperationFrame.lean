import Mathlib
import ForthMachine.Proofs.ColonRecord

/-!
# What an operation leaves alone

Whatever a program does, the machine's operations keep its primitive table, its settings and
its count of dispatched tokens (only fetching a token counts one); the unread part of the line
only ever shrinks. And they fail only with the machine's ordinary errors: the step budget is
spent only where a token is fetched, and a host primitive giving up is the only way a line
ends in a primitive panic.

Each operation below the token fetch gets one Hoare triple, `⦃g.Holds⦄ op ⦃g.Holds⦄`,
whether it succeeds or fails, whose error condition is `MachineError.RaisedFrom g.prims`.
Callers are proved from the triples of their callees by `mvcgen`. The triples are scoped to
`OpFrame`, like the other frames stated about the same operations.
-/

open Std.Do

set_option mvcgen.warning false

namespace ForthMachine

open ForthMachine.Text ForthMachine.Memory ForthMachine.Block

/-- The error a host action gives up with, if it gives up. -/
def HostAction.abortError? : HostAction → Option MachineError
  | .panic v => some (.panicked v)
  | .exit => some .exited
  | _ => none

/-- Some host primitive of the table `P` gives up with the error `e`. -/
def HostGivesUp (P : Array Primitive) (e : MachineError) : Prop :=
  ∃ p ∈ P, ∃ a, p.action = some (.host a) ∧ a.abortError? = some e

/-- The errors an operation may fail with on a machine whose primitive table is `P`: any but
a spent step budget, and a primitive panic only as a host primitive of `P` gives up, or as the
call of an entry of `P` that has no action. -/
def MachineError.RaisedFrom (P : Array Primitive) : MachineError → Prop
  | .stepBudgetExceeded => False
  | .panicked v => HostGivesUp P (.panicked v) ∨ ∃ p ∈ P, p.action = none
  | .exited => HostGivesUp P .exited
  | _ => True

/-- A host primitive of the table giving up is an error raised from the table. -/
theorem HostGivesUp.raisedFrom {P : Array Primitive} {e : MachineError} (h : HostGivesUp P e) :
    e.RaisedFrom P := by
  obtain ⟨p, hp, a, ha, he⟩ := h
  cases a <;> simp only [HostAction.abortError?, Option.some.injEq, reduceCtorEq] at he
  all_goals subst he
  · exact .inl ⟨p, hp, _, ha, rfl⟩
  · exact ⟨p, hp, _, ha, rfl⟩

/-- What an operation keeps: the primitive table, the settings and the count of dispatched
tokens, and the unread input, of which it may consume a prefix. -/
structure OpFrame where
  prims : Array Primitive
  settings : Settings
  steps : Nat
  rest : Bytes

/-- The machine's primitive table, settings and token count, and its unread input. -/
def Machine.opFrame (m : Machine) : OpFrame := ⟨m.prims, m.settings, m.steps, m.rest⟩

/-- The machine keeps the frame `g`, its unread input a suffix of that of `g`. -/
def OpFrame.Holds (g : OpFrame) (m : Machine) : Prop :=
  m.prims = g.prims ∧ m.settings = g.settings ∧ m.steps = g.steps ∧ m.rest <:+ g.rest

theorem OpFrame.holds_self (m : Machine) : m.opFrame.Holds m :=
  ⟨rfl, rfl, rfl, List.suffix_refl _⟩

@[simp] theorem Machine.setStack_prims (m : Machine) (st : StackName) (t : Stack) :
    (m.setStack st t).prims = m.prims := by
  cases st <;> rfl

@[simp] theorem Machine.setStack_settings (m : Machine) (st : StackName) (t : Stack) :
    (m.setStack st t).settings = m.settings := by
  cases st <;> rfl

@[simp] theorem Machine.setStack_steps (m : Machine) (st : StackName) (t : Stack) :
    (m.setStack st t).steps = m.steps := by
  cases st <;> rfl

@[simp] theorem Machine.setStack_rest (m : Machine) (st : StackName) (t : Stack) :
    (m.setStack st t).rest = m.rest := by
  cases st <;> rfl

/-- Reading a token leaves a suffix of the input. -/
theorem splitToken_suffix (input : Bytes) : (splitToken input).2 <:+ input :=
  (List.dropWhile_suffix _).trans (List.dropWhile_suffix _)

/-- Reading up to a delimiter leaves a suffix of the input. -/
theorem splitUntil_suffix (delim : UInt8) (input : Bytes) :
    (splitUntil delim input).2 <:+ input := by
  -- the text searched is the input after one skipped blank, and the rest follows the delimiter
  cases input with
  | nil => exact List.nil_suffix
  | cons b r =>
    by_cases hb : isBlank b
    · simp only [splitUntil, hb, ↓reduceIte]
      split
      · exact (List.drop_suffix _ _).trans (List.suffix_cons b r)
      · exact List.nil_suffix
    · simp only [splitUntil, hb, Bool.false_eq_true, ↓reduceIte]
      split
      · exact List.drop_suffix _ _
      · exact List.nil_suffix

/-- Consuming input keeps a frame. -/
theorem OpFrame.Holds.withRest {g : OpFrame} {m : Machine} (h : g.Holds m) {r : Bytes}
    (hr : r <:+ m.rest) : g.Holds { m with rest := r } :=
  ⟨h.1, h.2.1, h.2.2.1, hr.trans h.2.2.2⟩

namespace OpFrame

variable (g : OpFrame)

@[scoped spec] theorem trace_framed (mark : String) (msg : Unit → Bytes) :
    ⦃fun s => ⌜g.Holds s⌝⦄ trace mark msg
    ⦃post⟨fun _ s => ⌜g.Holds s⌝, fun e s => ⌜g.Holds s ∧ e.RaisedFrom g.prims⌝⟩⦄ := by
  mvcgen [trace]
  simp_all +zetaDelta [OpFrame.Holds]
  split <;> simp_all

@[scoped spec] theorem emitBytes_framed (p : Bytes) :
    ⦃fun s => ⌜g.Holds s⌝⦄ emitBytes p
    ⦃post⟨fun _ s => ⌜g.Holds s⌝, fun e s => ⌜g.Holds s ∧ e.RaisedFrom g.prims⌝⟩⦄ := by
  mvcgen [emitBytes]

@[scoped spec] theorem loadCell_framed (a : UInt32) :
    ⦃fun s => ⌜g.Holds s⌝⦄ loadCell a
    ⦃post⟨fun _ s => ⌜g.Holds s⌝, fun e s => ⌜g.Holds s ∧ e.RaisedFrom g.prims⌝⟩⦄ := by
  mvcgen [loadCell, Vm.ofRegion]

@[scoped spec] theorem changeRegion_framed (f : Region → Region) :
    ⦃fun s => ⌜g.Holds s⌝⦄ changeRegion f
    ⦃post⟨fun _ s => ⌜g.Holds s⌝, fun e s => ⌜g.Holds s ∧ e.RaisedFrom g.prims⌝⟩⦄ := by
  mvcgen [changeRegion, takeRegion]

@[scoped spec] theorem storCell_framed (a v : UInt32) :
    ⦃fun s => ⌜g.Holds s⌝⦄ storCell a v
    ⦃post⟨fun _ s => ⌜g.Holds s⌝, fun e s => ⌜g.Holds s ∧ e.RaisedFrom g.prims⌝⟩⦄ := by
  mvcgen [storCell, Vm.ofRegion]

@[scoped spec] theorem storByte_framed (a : UInt32) (b : UInt8) :
    ⦃fun s => ⌜g.Holds s⌝⦄ storByte a b
    ⦃post⟨fun _ s => ⌜g.Holds s⌝, fun e s => ⌜g.Holds s ∧ e.RaisedFrom g.prims⌝⟩⦄ := by
  mvcgen [storByte, Vm.ofRegion]

@[scoped spec] theorem copyIn_framed (a : UInt32) (bs : Bytes) :
    ⦃fun s => ⌜g.Holds s⌝⦄ copyIn a bs
    ⦃post⟨fun _ s => ⌜g.Holds s⌝, fun e s => ⌜g.Holds s ∧ e.RaisedFrom g.prims⌝⟩⦄ := by
  mvcgen [copyIn, Vm.ofRegion]

@[scoped spec] theorem slice_framed (a : UInt32) (n : Nat) :
    ⦃fun s => ⌜g.Holds s⌝⦄ slice a n
    ⦃post⟨fun _ s => ⌜g.Holds s⌝, fun e s => ⌜g.Holds s ∧ e.RaisedFrom g.prims⌝⟩⦄ := by
  mvcgen [slice, Vm.ofRegion]

@[scoped spec] theorem push_framed (st : StackName) (v : UInt32) :
    ⦃fun s => ⌜g.Holds s⌝⦄ push st v
    ⦃post⟨fun _ s => ⌜g.Holds s⌝, fun e s => ⌜g.Holds s ∧ e.RaisedFrom g.prims⌝⟩⦄ := by
  mvcgen [push]
  simp_all +zetaDelta [OpFrame.Holds]

@[scoped spec] theorem peek_framed (st : StackName) (n : UInt32) :
    ⦃fun s => ⌜g.Holds s⌝⦄ peek st n
    ⦃post⟨fun _ s => ⌜g.Holds s⌝, fun e s => ⌜g.Holds s ∧ e.RaisedFrom g.prims⌝⟩⦄ := by
  mvcgen [peek, Vm.ofStack]

@[scoped spec] theorem dropCells_framed (st : StackName) (n : UInt32) :
    ⦃fun s => ⌜g.Holds s⌝⦄ dropCells st n
    ⦃post⟨fun _ s => ⌜g.Holds s⌝, fun e s => ⌜g.Holds s ∧ e.RaisedFrom g.prims⌝⟩⦄ := by
  mvcgen [dropCells, Vm.ofStack]
  simp_all +zetaDelta [OpFrame.Holds]

@[scoped spec] theorem pop_framed (st : StackName) :
    ⦃fun s => ⌜g.Holds s⌝⦄ pop st
    ⦃post⟨fun _ s => ⌜g.Holds s⌝, fun e s => ⌜g.Holds s ∧ e.RaisedFrom g.prims⌝⟩⦄ := by
  mvcgen [pop]

@[scoped spec] theorem poke_framed (st : StackName) (n v : UInt32) :
    ⦃fun s => ⌜g.Holds s⌝⦄ poke st n v
    ⦃post⟨fun _ s => ⌜g.Holds s⌝, fun e s => ⌜g.Holds s ∧ e.RaisedFrom g.prims⌝⟩⦄ := by
  mvcgen [poke, Vm.ofStack]

@[scoped spec] theorem popN_framed (n : Nat) :
    ⦃fun s => ⌜g.Holds s⌝⦄ popN n
    ⦃post⟨fun _ s => ⌜g.Holds s⌝, fun e s => ⌜g.Holds s ∧ e.RaisedFrom g.prims⌝⟩⦄ := by
  mvcgen [popN] invariants
  | inv1 => post⟨fun _ s => ⌜g.Holds s⌝, fun e s => ⌜g.Holds s ∧ e.RaisedFrom g.prims⌝⟩
  all_goals simp_all

@[scoped spec] theorem pushAll_framed (vs : List UInt32) :
    ⦃fun s => ⌜g.Holds s⌝⦄ pushAll vs
    ⦃post⟨fun _ s => ⌜g.Holds s⌝, fun e s => ⌜g.Holds s ∧ e.RaisedFrom g.prims⌝⟩⦄ := by
  induction vs with
  | nil => mvcgen [pushAll]
  | cons v vs ih =>
    have h : pushAll (v :: vs) = (do push .data v; pushAll vs) := rfl
    rw [h]
    mvcgen [ih]

@[scoped spec] theorem radix_framed :
    ⦃fun s => ⌜g.Holds s⌝⦄ radix
    ⦃post⟨fun _ s => ⌜g.Holds s⌝, fun e s => ⌜g.Holds s ∧ e.RaisedFrom g.prims⌝⟩⦄ := by
  mvcgen [radix]

@[scoped spec] theorem checkData_framed (a : UInt32) (n : Nat) (acc : Access) :
    ⦃fun s => ⌜g.Holds s⌝⦄ checkData a n acc
    ⦃post⟨fun _ s => ⌜g.Holds s⌝, fun e s => ⌜g.Holds s ∧ e.RaisedFrom g.prims⌝⟩⦄ := by
  mvcgen [checkData]

@[scoped spec] theorem loadData_framed (a : UInt32) :
    ⦃fun s => ⌜g.Holds s⌝⦄ loadData a
    ⦃post⟨fun _ s => ⌜g.Holds s⌝, fun e s => ⌜g.Holds s ∧ e.RaisedFrom g.prims⌝⟩⦄ := by
  mvcgen [loadData]

@[scoped spec] theorem storData_framed (a v : UInt32) :
    ⦃fun s => ⌜g.Holds s⌝⦄ storData a v
    ⦃post⟨fun _ s => ⌜g.Holds s⌝, fun e s => ⌜g.Holds s ∧ e.RaisedFrom g.prims⌝⟩⦄ := by
  mvcgen [storData]

@[scoped spec] theorem dataBytes_framed (a : UInt32) (n : Nat) :
    ⦃fun s => ⌜g.Holds s⌝⦄ dataBytes a n
    ⦃post⟨fun _ s => ⌜g.Holds s⌝, fun e s => ⌜g.Holds s ∧ e.RaisedFrom g.prims⌝⟩⦄ := by
  mvcgen [dataBytes]

@[scoped spec] theorem nextToken_framed :
    ⦃fun s => ⌜g.Holds s⌝⦄ nextToken
    ⦃post⟨fun _ s => ⌜g.Holds s⌝, fun e s => ⌜g.Holds s ∧ e.RaisedFrom g.prims⌝⟩⦄ := by
  mvcgen [nextToken]
  exact OpFrame.Holds.withRest ‹_› (splitToken_suffix _)

@[scoped spec] theorem parseUntil_framed (d : UInt8) :
    ⦃fun s => ⌜g.Holds s⌝⦄ parseUntil d
    ⦃post⟨fun _ s => ⌜g.Holds s⌝, fun e s => ⌜g.Holds s ∧ e.RaisedFrom g.prims⌝⟩⦄ := by
  mvcgen [parseUntil]
  exact OpFrame.Holds.withRest ‹_› (splitUntil_suffix _ _)

@[scoped spec] theorem parseName_framed :
    ⦃fun s => ⌜g.Holds s⌝⦄ parseName
    ⦃post⟨fun _ s => ⌜g.Holds s⌝, fun e s => ⌜g.Holds s ∧ e.RaisedFrom g.prims⌝⟩⦄ := by
  mvcgen [parseName]

@[scoped spec] theorem skipLine_framed :
    ⦃fun s => ⌜g.Holds s⌝⦄ skipLine
    ⦃post⟨fun _ s => ⌜g.Holds s⌝, fun e s => ⌜g.Holds s ∧ e.RaisedFrom g.prims⌝⟩⦄ := by
  mvcgen [skipLine]
  exact OpFrame.Holds.withRest ‹_› List.nil_suffix

@[scoped spec] theorem wordInfo_framed (h : UInt32) :
    ⦃fun s => ⌜g.Holds s⌝⦄ wordInfo h
    ⦃post⟨fun _ s => ⌜g.Holds s⌝, fun e s => ⌜g.Holds s ∧ e.RaisedFrom g.prims⌝⟩⦄ := by
  mvcgen [wordInfo, Vm.ofRegion]

@[scoped spec] theorem allocate_framed (n : UInt32) :
    ⦃fun s => ⌜g.Holds s⌝⦄ allocate n
    ⦃post⟨fun _ s => ⌜g.Holds s⌝, fun e s => ⌜g.Holds s ∧ e.RaisedFrom g.prims⌝⟩⦄ := by
  mvcgen [allocate, Vm.ofRegion]

@[scoped spec] theorem define_framed (name : Bytes) (flags : UInt8) :
    ⦃fun s => ⌜g.Holds s⌝⦄ define name flags
    ⦃post⟨fun _ s => ⌜g.Holds s⌝, fun e s => ⌜g.Holds s ∧ e.RaisedFrom g.prims⌝⟩⦄ := by
  mvcgen [define]
  -- the failed allocation is reported as a full dictionary, from the state it failed in
  rename_i h
  exact ⟨h.1, trivial⟩

@[scoped spec] theorem abandon_framed :
    ⦃fun s => ⌜g.Holds s⌝⦄ abandon
    ⦃post⟨fun _ s => ⌜g.Holds s⌝, fun e s => ⌜g.Holds s ∧ e.RaisedFrom g.prims⌝⟩⦄ := by
  mvcgen [abandon]

@[scoped spec] theorem setFlags_framed (h : UInt32) (a b : UInt8) :
    ⦃fun s => ⌜g.Holds s⌝⦄ setFlags h a b
    ⦃post⟨fun _ s => ⌜g.Holds s⌝, fun e s => ⌜g.Holds s ∧ e.RaisedFrom g.prims⌝⟩⦄ := by
  mvcgen [setFlags]

@[scoped spec] theorem compileCell_framed (v : UInt32) :
    ⦃fun s => ⌜g.Holds s⌝⦄ compileCell v
    ⦃post⟨fun _ s => ⌜g.Holds s⌝, fun e s => ⌜g.Holds s ∧ e.RaisedFrom g.prims⌝⟩⦄ := by
  mvcgen [compileCell]

@[scoped spec] theorem compileToken_framed (k : TokenKind) (a : UInt32) :
    ⦃fun s => ⌜g.Holds s⌝⦄ compileToken k a
    ⦃post⟨fun _ s => ⌜g.Holds s⌝, fun e s => ⌜g.Holds s ∧ e.RaisedFrom g.prims⌝⟩⦄ := by
  mvcgen [compileToken]

@[scoped spec] theorem compileOperand_framed (k : TokenKind) (a : UInt32) :
    ⦃fun s => ⌜g.Holds s⌝⦄ compileOperand k a
    ⦃post⟨fun _ s => ⌜g.Holds s⌝, fun e s => ⌜g.Holds s ∧ e.RaisedFrom g.prims⌝⟩⦄ := by
  mvcgen [compileOperand]

@[scoped spec] theorem patch_framed (site target : UInt32) :
    ⦃fun s => ⌜g.Holds s⌝⦄ patch site target
    ⦃post⟨fun _ s => ⌜g.Holds s⌝, fun e s => ⌜g.Holds s ∧ e.RaisedFrom g.prims⌝⟩⦄ := by
  mvcgen [patch]

@[scoped spec] theorem pushFixup_framed (k : Fixup) (site : UInt32) :
    ⦃fun s => ⌜g.Holds s⌝⦄ pushFixup k site
    ⦃post⟨fun _ s => ⌜g.Holds s⌝, fun e s => ⌜g.Holds s ∧ e.RaisedFrom g.prims⌝⟩⦄ := by
  mvcgen [pushFixup]

@[scoped spec] theorem popFixup_framed (want : List Fixup) :
    ⦃fun s => ⌜g.Holds s⌝⦄ popFixup want
    ⦃post⟨fun _ s => ⌜g.Holds s⌝, fun e s => ⌜g.Holds s ∧ e.RaisedFrom g.prims⌝⟩⦄ := by
  mvcgen [popFixup]

@[scoped spec] theorem compileWord_framed (h : UInt32) :
    ⦃fun s => ⌜g.Holds s⌝⦄ compileWord h
    ⦃post⟨fun _ s => ⌜g.Holds s⌝, fun e s => ⌜g.Holds s ∧ e.RaisedFrom g.prims⌝⟩⦄ := by
  mvcgen [compileWord]

@[scoped spec] theorem endDefinition_framed :
    ⦃fun s => ⌜g.Holds s⌝⦄ endDefinition
    ⦃post⟨fun _ s => ⌜g.Holds s⌝, fun e s => ⌜g.Holds s ∧ e.RaisedFrom g.prims⌝⟩⦄ := by
  mvcgen [endDefinition]

@[scoped spec] theorem makeImmediate_framed :
    ⦃fun s => ⌜g.Holds s⌝⦄ makeImmediate
    ⦃post⟨fun _ s => ⌜g.Holds s⌝, fun e s => ⌜g.Holds s ∧ e.RaisedFrom g.prims⌝⟩⦄ := by
  mvcgen [makeImmediate]

@[scoped spec] theorem compileRecurse_framed :
    ⦃fun s => ⌜g.Holds s⌝⦄ compileRecurse
    ⦃post⟨fun _ s => ⌜g.Holds s⌝, fun e s => ⌜g.Holds s ∧ e.RaisedFrom g.prims⌝⟩⦄ := by
  mvcgen [compileRecurse]

@[scoped spec] theorem compileLiteral_framed :
    ⦃fun s => ⌜g.Holds s⌝⦄ compileLiteral
    ⦃post⟨fun _ s => ⌜g.Holds s⌝, fun e s => ⌜g.Holds s ∧ e.RaisedFrom g.prims⌝⟩⦄ := by
  mvcgen [compileLiteral]

@[scoped spec] theorem compileExit_framed :
    ⦃fun s => ⌜g.Holds s⌝⦄ compileExit
    ⦃post⟨fun _ s => ⌜g.Holds s⌝, fun e s => ⌜g.Holds s ∧ e.RaisedFrom g.prims⌝⟩⦄ := by
  mvcgen [compileExit]

@[scoped spec] theorem compileIf_framed :
    ⦃fun s => ⌜g.Holds s⌝⦄ compileIf
    ⦃post⟨fun _ s => ⌜g.Holds s⌝, fun e s => ⌜g.Holds s ∧ e.RaisedFrom g.prims⌝⟩⦄ := by
  mvcgen [compileIf]

@[scoped spec] theorem compileElse_framed :
    ⦃fun s => ⌜g.Holds s⌝⦄ compileElse
    ⦃post⟨fun _ s => ⌜g.Holds s⌝, fun e s => ⌜g.Holds s ∧ e.RaisedFrom g.prims⌝⟩⦄ := by
  mvcgen [compileElse]

@[scoped spec] theorem compileThen_framed :
    ⦃fun s => ⌜g.Holds s⌝⦄ compileThen
    ⦃post⟨fun _ s => ⌜g.Holds s⌝, fun e s => ⌜g.Holds s ∧ e.RaisedFrom g.prims⌝⟩⦄ := by
  mvcgen [compileThen]

@[scoped spec] theorem compileBegin_framed :
    ⦃fun s => ⌜g.Holds s⌝⦄ compileBegin
    ⦃post⟨fun _ s => ⌜g.Holds s⌝, fun e s => ⌜g.Holds s ∧ e.RaisedFrom g.prims⌝⟩⦄ := by
  mvcgen [compileBegin]

@[scoped spec] theorem compileUntil_framed :
    ⦃fun s => ⌜g.Holds s⌝⦄ compileUntil
    ⦃post⟨fun _ s => ⌜g.Holds s⌝, fun e s => ⌜g.Holds s ∧ e.RaisedFrom g.prims⌝⟩⦄ := by
  mvcgen [compileUntil]

@[scoped spec] theorem compileAgain_framed :
    ⦃fun s => ⌜g.Holds s⌝⦄ compileAgain
    ⦃post⟨fun _ s => ⌜g.Holds s⌝, fun e s => ⌜g.Holds s ∧ e.RaisedFrom g.prims⌝⟩⦄ := by
  mvcgen [compileAgain]

@[scoped spec] theorem compileWhile_framed :
    ⦃fun s => ⌜g.Holds s⌝⦄ compileWhile
    ⦃post⟨fun _ s => ⌜g.Holds s⌝, fun e s => ⌜g.Holds s ∧ e.RaisedFrom g.prims⌝⟩⦄ := by
  mvcgen [compileWhile]

@[scoped spec] theorem compileRepeat_framed :
    ⦃fun s => ⌜g.Holds s⌝⦄ compileRepeat
    ⦃post⟨fun _ s => ⌜g.Holds s⌝, fun e s => ⌜g.Holds s ∧ e.RaisedFrom g.prims⌝⟩⦄ := by
  mvcgen [compileRepeat]

@[scoped spec] theorem compileDo_framed :
    ⦃fun s => ⌜g.Holds s⌝⦄ compileDo
    ⦃post⟨fun _ s => ⌜g.Holds s⌝, fun e s => ⌜g.Holds s ∧ e.RaisedFrom g.prims⌝⟩⦄ := by
  mvcgen [compileDo]

@[scoped spec] theorem closeLoop_framed (k : TokenKind) :
    ⦃fun s => ⌜g.Holds s⌝⦄ closeLoop k
    ⦃post⟨fun _ s => ⌜g.Holds s⌝, fun e s => ⌜g.Holds s ∧ e.RaisedFrom g.prims⌝⟩⦄ := by
  mvcgen [closeLoop]

@[scoped spec] theorem pushFromReturn_framed (n : UInt32) :
    ⦃fun s => ⌜g.Holds s⌝⦄ pushFromReturn n
    ⦃post⟨fun _ s => ⌜g.Holds s⌝, fun e s => ⌜g.Holds s ∧ e.RaisedFrom g.prims⌝⟩⦄ := by
  mvcgen [pushFromReturn]

@[scoped spec] theorem leaveLoop_framed :
    ⦃fun s => ⌜g.Holds s⌝⦄ leaveLoop
    ⦃post⟨fun _ s => ⌜g.Holds s⌝, fun e s => ⌜g.Holds s ∧ e.RaisedFrom g.prims⌝⟩⦄ := by
  mvcgen [leaveLoop]

@[scoped spec] theorem compileString_framed (text : Bytes) :
    ⦃fun s => ⌜g.Holds s⌝⦄ printString.compileString text
    ⦃post⟨fun _ s => ⌜g.Holds s⌝, fun e s => ⌜g.Holds s ∧ e.RaisedFrom g.prims⌝⟩⦄ := by
  mvcgen [printString.compileString]

@[scoped spec] theorem printString_framed :
    ⦃fun s => ⌜g.Holds s⌝⦄ printString
    ⦃post⟨fun _ s => ⌜g.Holds s⌝, fun e s => ⌜g.Holds s ∧ e.RaisedFrom g.prims⌝⟩⦄ := by
  mvcgen [printString]

@[scoped spec] theorem stringLiteral_framed :
    ⦃fun s => ⌜g.Holds s⌝⦄ stringLiteral
    ⦃post⟨fun _ s => ⌜g.Holds s⌝, fun e s => ⌜g.Holds s ∧ e.RaisedFrom g.prims⌝⟩⦄ := by
  mvcgen [stringLiteral]

@[scoped spec] theorem parseChar_framed :
    ⦃fun s => ⌜g.Holds s⌝⦄ parseChar
    ⦃post⟨fun _ s => ⌜g.Holds s⌝, fun e s => ⌜g.Holds s ∧ e.RaisedFrom g.prims⌝⟩⦄ := by
  mvcgen [parseChar]

@[scoped spec] theorem defineData_framed (c : Bool) (v size : UInt32) :
    ⦃fun s => ⌜g.Holds s⌝⦄ defineData c v size
    ⦃post⟨fun _ s => ⌜g.Holds s⌝, fun e s => ⌜g.Holds s ∧ e.RaisedFrom g.prims⌝⟩⦄ := by
  mvcgen [defineData]

@[scoped spec] theorem allotSpace_framed :
    ⦃fun s => ⌜g.Holds s⌝⦄ allotSpace
    ⦃post⟨fun _ s => ⌜g.Holds s⌝, fun e s => ⌜g.Holds s ∧ e.RaisedFrom g.prims⌝⟩⦄ := by
  mvcgen [allotSpace]

@[scoped spec] theorem compileByte_framed :
    ⦃fun s => ⌜g.Holds s⌝⦄ compileByte
    ⦃post⟨fun _ s => ⌜g.Holds s⌝, fun e s => ⌜g.Holds s ∧ e.RaisedFrom g.prims⌝⟩⦄ := by
  mvcgen [compileByte]

@[scoped spec] theorem beginDefinition_framed :
    ⦃fun s => ⌜g.Holds s⌝⦄ beginDefinition
    ⦃post⟨fun _ s => ⌜g.Holds s⌝, fun e s => ⌜g.Holds s ∧ e.RaisedFrom g.prims⌝⟩⦄ := by
  mvcgen [beginDefinition]

@[scoped spec] theorem compilerWord_framed (w : CompilerWord) :
    ⦃fun s => ⌜g.Holds s⌝⦄ w.run
    ⦃post⟨fun _ s => ⌜g.Holds s⌝, fun e s => ⌜g.Holds s ∧ e.RaisedFrom g.prims⌝⟩⦄ := by
  cases w <;> mvcgen [CompilerWord.run]

@[scoped spec] theorem shuffleCells_framed (arity : Nat) (perm : List Nat) :
    ⦃fun s => ⌜g.Holds s⌝⦄ shuffleCells arity perm
    ⦃post⟨fun _ s => ⌜g.Holds s⌝, fun e s => ⌜g.Holds s ∧ e.RaisedFrom g.prims⌝⟩⦄ := by
  mvcgen [shuffleCells]

@[scoped spec] theorem divideCells_framed (d : DivisionResult) :
    ⦃fun s => ⌜g.Holds s⌝⦄ divideCells d
    ⦃post⟨fun _ s => ⌜g.Holds s⌝, fun e s => ⌜g.Holds s ∧ e.RaisedFrom g.prims⌝⟩⦄ := by
  mvcgen [divideCells]

/-- Formatting never panics: the base it formats in was read between 2 and 36. -/
@[scoped spec] theorem formatCell_framed (v : UInt32) (u : Bool) :
    ⦃fun s => ⌜g.Holds s⌝⦄ formatCell v u
    ⦃post⟨fun _ s => ⌜g.Holds s⌝, fun e s => ⌜g.Holds s ∧ e.RaisedFrom g.prims⌝⟩⦄ := by
  mvcgen [formatCell, radix]
  -- the base was read between 2 and 36, so the panic of a base outside them is never reached
  rename_i hbase _ _ _ hpanic
  simp only [Bool.or_eq_true, decide_eq_true_eq, not_or, gt_iff_lt] at hbase hpanic
  omega

@[scoped spec] theorem callWord_framed (h : UInt32) :
    ⦃fun s => ⌜g.Holds s⌝⦄ callWord h
    ⦃post⟨fun _ s => ⌜g.Holds s⌝, fun e s => ⌜g.Holds s ∧ e.RaisedFrom g.prims⌝⟩⦄ := by
  mvcgen [callWord]

@[scoped spec] theorem writeSpacesGo_framed (n fuel : Nat) :
    ⦃fun s => ⌜g.Holds s⌝⦄ writeSpaces.go n fuel
    ⦃post⟨fun _ s => ⌜g.Holds s⌝, fun e s => ⌜g.Holds s ∧ e.RaisedFrom g.prims⌝⟩⦄ := by
  induction fuel generalizing n with
  | zero => mvcgen [writeSpaces.go]
  | succ fuel ih => mvcgen [writeSpaces.go, ih]

@[scoped spec] theorem writeSpaces_framed (n : Int) :
    ⦃fun s => ⌜g.Holds s⌝⦄ writeSpaces n
    ⦃post⟨fun _ s => ⌜g.Holds s⌝, fun e s => ⌜g.Holds s ∧ e.RaisedFrom g.prims⌝⟩⦄ := by
  mvcgen [writeSpaces]

@[scoped spec] theorem libraryWord_framed (w : LibraryWord) :
    ⦃fun s => ⌜g.Holds s⌝⦄ w.run
    ⦃post⟨fun _ s => ⌜g.Holds s⌝, fun e s => ⌜g.Holds s ∧ e.RaisedFrom g.prims⌝⟩⦄ := by
  cases w
  case dotS =>
    mvcgen [LibraryWord.run] invariants
    | inv1 => post⟨fun _ s => ⌜g.Holds s⌝, fun e s => ⌜g.Holds s ∧ e.RaisedFrom g.prims⌝⟩
  all_goals mvcgen [LibraryWord.run]

@[scoped spec] theorem withCache_framed {α : Type} (op : CacheM Disk α) :
    ⦃fun s => ⌜g.Holds s⌝⦄ withCache op
    ⦃post⟨fun _ s => ⌜g.Holds s⌝, fun e s => ⌜g.Holds s ∧ e.RaisedFrom g.prims⌝⟩⦄ := by
  mvcgen [withCache]

@[scoped spec] theorem popBlockIndex_framed :
    ⦃fun s => ⌜g.Holds s⌝⦄ popBlockIndex
    ⦃post⟨fun _ s => ⌜g.Holds s⌝, fun e s => ⌜g.Holds s ∧ e.RaisedFrom g.prims⌝⟩⦄ := by
  mvcgen [popBlockIndex]

@[scoped spec] theorem blockAddr_framed (f : UInt16 → CacheM Disk UInt32) :
    ⦃fun s => ⌜g.Holds s⌝⦄ blockAddr f
    ⦃post⟨fun _ s => ⌜g.Holds s⌝, fun e s => ⌜g.Holds s ∧ e.RaisedFrom g.prims⌝⟩⦄ := by
  mvcgen [blockAddr]

@[scoped spec] theorem blockWord_framed (w : BlockWord) :
    ⦃fun s => ⌜g.Holds s⌝⦄ w.run
    ⦃post⟨fun _ s => ⌜g.Holds s⌝, fun e s => ⌜g.Holds s ∧ e.RaisedFrom g.prims⌝⟩⦄ := by
  cases w <;> mvcgen [BlockWord.run]

@[scoped spec] theorem fetchCode_framed (pos : UInt32) :
    ⦃fun s => ⌜g.Holds s⌝⦄ fetchCode pos
    ⦃post⟨fun _ s => ⌜g.Holds s⌝, fun e s => ⌜g.Holds s ∧ e.RaisedFrom g.prims⌝⟩⦄ := by
  mvcgen [fetchCode]

@[scoped spec] theorem nextOperand_framed :
    ⦃fun s => ⌜g.Holds s⌝⦄ nextOperand
    ⦃post⟨fun _ s => ⌜g.Holds s⌝, fun e s => ⌜g.Holds s ∧ e.RaisedFrom g.prims⌝⟩⦄ := by
  mvcgen [nextOperand]

/-- A host primitive fails with an ordinary error or gives up with its own. -/
@[scoped spec] theorem hostAction_framed (a : HostAction) :
    ⦃fun s => ⌜g.Holds s⌝⦄ a.run
    ⦃post⟨fun _ s => ⌜g.Holds s⌝,
      fun e s => ⌜g.Holds s ∧ (e.RaisedFrom g.prims ∨ a.abortError? = some e)⌝⟩⦄ := by
  cases a <;> mvcgen [HostAction.run]
  all_goals simp_all [HostAction.abortError?, MachineError.RaisedFrom]

/-- A primitive's action fails as a host action may, or with an ordinary error. -/
@[scoped spec] theorem action_framed (a : Action) :
    ⦃fun s => ⌜g.Holds s⌝⦄ a.run
    ⦃post⟨fun _ s => ⌜g.Holds s⌝, fun e s => ⌜g.Holds s ∧
      (e.RaisedFrom g.prims ∨ ∃ h, a = .host h ∧ h.abortError? = some e)⌝⟩⦄ := by
  cases a <;> mvcgen [Action.run]
  all_goals simp_all

/-- A primitive of the table that gives up raises its error from the table, and so does the
call of an entry without an action. -/
@[scoped spec] theorem callPrim_framed (idx : UInt32) :
    ⦃fun s => ⌜g.Holds s⌝⦄ callPrim idx
    ⦃post⟨fun _ s => ⌜g.Holds s⌝, fun e s => ⌜g.Holds s ∧ e.RaisedFrom g.prims⌝⟩⦄ := by
  mvcgen [callPrim]
  · exact id
  · rename_i hs _ _ a hp e _
    rintro hs' (he | ⟨h, rfl, habort⟩)
    · exact ⟨hs', he⟩
    · exact ⟨hs', HostGivesUp.raisedFrom ⟨_, hs.1 ▸ Array.mem_of_getElem? hp, h, rfl, habort⟩⟩
  · rename_i hs p hne hp
    refine ⟨hs, .inr ⟨p, hs.1 ▸ Array.mem_of_getElem? hp, ?_⟩⟩
    obtain ⟨name, flags, action⟩ := p
    cases action with
    | none => rfl
    | some a => exact (hne name flags a rfl).elim

@[scoped spec] theorem enterLoop_framed :
    ⦃fun s => ⌜g.Holds s⌝⦄ enterLoop
    ⦃post⟨fun _ s => ⌜g.Holds s⌝, fun e s => ⌜g.Holds s ∧ e.RaisedFrom g.prims⌝⟩⦄ := by
  mvcgen [enterLoop]

@[scoped spec] theorem stepLoop_framed (step : UInt32) :
    ⦃fun s => ⌜g.Holds s⌝⦄ stepLoop step
    ⦃post⟨fun _ s => ⌜g.Holds s⌝, fun e s => ⌜g.Holds s ∧ e.RaisedFrom g.prims⌝⟩⦄ := by
  mvcgen [stepLoop]

@[scoped spec] theorem dispatch_framed (base pos code : UInt32) :
    ⦃fun s => ⌜g.Holds s⌝⦄ dispatch base pos code
    ⦃post⟨fun _ s => ⌜g.Holds s⌝, fun e s => ⌜g.Holds s ∧ e.RaisedFrom g.prims⌝⟩⦄ := by
  mvcgen [dispatch]

@[scoped spec] theorem parseLiteral_framed (tok : Bytes) :
    ⦃fun s => ⌜g.Holds s⌝⦄ parseLiteral tok
    ⦃post⟨fun _ s => ⌜g.Holds s⌝, fun e s => ⌜g.Holds s ∧ e.RaisedFrom g.prims⌝⟩⦄ := by
  mvcgen [parseLiteral]

@[scoped spec] theorem peekCell_framed (n : Int) :
    ⦃fun s => ⌜g.Holds s⌝⦄ peekCell n
    ⦃post⟨fun _ s => ⌜g.Holds s⌝, fun e s => ⌜g.Holds s ∧ e.RaisedFrom g.prims⌝⟩⦄ := by
  mvcgen [peekCell]

@[scoped spec] theorem flushOutput_framed :
    ⦃fun s => ⌜g.Holds s⌝⦄ flushOutput
    ⦃post⟨fun _ s => ⌜g.Holds s⌝, fun e s => ⌜g.Holds s ∧ e.RaisedFrom g.prims⌝⟩⦄ := by
  mvcgen [flushOutput]

end OpFrame

end ForthMachine
