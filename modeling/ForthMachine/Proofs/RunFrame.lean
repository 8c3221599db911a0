import Mathlib
import ForthMachine.Proofs.OperationFrame
import ForthMachine.Proofs.Runs

/-!
# What a run leaves alone

A run keeps the machine's primitive table and settings, and its count of dispatched tokens
only grows: fetching a token counts it, and the operations between two fetches keep the count
(`OperationFrame`). A run fails with an error of one of its operations, or because the step
limit of its line stops it.

The operation triples of `OperationFrame` fix the whole frame; a run moves the count on, so
its triples say that the frame is `Reaches`: kept, the count no smaller. Every operation's
triple gives one of these (`OpFrame.reaches_of_holds`), and the runs are proved from them by
`mvcgen`, with the triples scoped to `RunFrame`.

The main statement is `session_panic_from_host`: on every machine a session reaches from a
creation, a line that ends in a primitive panic ran a host primitive of the machine's table,
which gave up with that very error. The machine's own code raises a panic only by calling an
entry of its table that has no action, and no such entry gets in (`Machine.TableActs`).
-/

open Std.Do

set_option mvcgen.warning false

namespace ForthMachine

open ForthMachine.Text

/-- The machine keeps the primitive table and the settings of `g`, has dispatched at least the
tokens of `g`, and has read on from the input of `g`. -/
def OpFrame.Reaches (g : OpFrame) (m : Machine) : Prop :=
  m.prims = g.prims ∧ m.settings = g.settings ∧ g.steps ≤ m.steps ∧ m.rest <:+ g.rest

theorem OpFrame.Holds.reaches {g : OpFrame} {m : Machine} (h : g.Holds m) : g.Reaches m :=
  ⟨h.1, h.2.1, h.2.2.1.ge, h.2.2.2⟩

theorem OpFrame.Reaches.trans_holds {g : OpFrame} {s t : Machine} (hs : g.Reaches s)
    (ht : s.opFrame.Holds t) : g.Reaches t :=
  ⟨ht.1.trans hs.1, ht.2.1.trans hs.2.1, hs.2.2.1.trans_eq ht.2.2.1.symm, ht.2.2.2.trans hs.2.2.2⟩

/-- Counting a token keeps the frame reached. -/
theorem OpFrame.Reaches.count {g : OpFrame} {m : Machine} (h : g.Reaches m) :
    g.Reaches { m with steps := m.steps + 1 } :=
  ⟨h.1, h.2.1, Nat.le_succ_of_le h.2.2.1, h.2.2.2⟩

/-- An operation's triple read from one state: its run keeps that state's frame. -/
theorem OpFrame.run_holds {α : Type} {x : Vm α}
    (hx : ∀ g : OpFrame, ⦃fun s => ⌜g.Holds s⌝⦄ x
      ⦃post⟨fun _ s => ⌜g.Holds s⌝, fun e s => ⌜g.Holds s ∧ e.RaisedFrom g.prims⌝⟩⦄)
    (s : Machine) :
    match x.run s with
    | .ok _ t => s.opFrame.Holds t
    | .error e t => s.opFrame.Holds t ∧ e.RaisedFrom s.prims :=
  Vm.run_of_triple fun u hu => by
    subst hu
    exact hx u.opFrame u (OpFrame.holds_self u)

/-- An operation that keeps every frame keeps every frame reached, failing as a run may. -/
theorem OpFrame.reaches_of_holds {α : Type} {x : Vm α}
    (hx : ∀ g : OpFrame, ⦃fun s => ⌜g.Holds s⌝⦄ x
      ⦃post⟨fun _ s => ⌜g.Holds s⌝, fun e s => ⌜g.Holds s ∧ e.RaisedFrom g.prims⌝⟩⦄)
    (g : OpFrame) :
    ⦃fun s => ⌜g.Reaches s⌝⦄ x
    ⦃post⟨fun _ s => ⌜g.Reaches s⌝,
      fun e s => ⌜g.Reaches s ∧ (e = .stepBudgetExceeded ∨ e.RaisedFrom g.prims)⌝⟩⦄ :=
  Vm.triple_of_run fun s hs => by
    have h := OpFrame.run_holds hx s
    cases hr : x.run s with
    | ok a t =>
      rw [hr] at h
      exact hs.trans_holds h
    | error e t =>
      rw [hr] at h
      exact ⟨hs.trans_holds h.1, .inr (hs.1 ▸ h.2)⟩

namespace RunFrame

variable (g : OpFrame)

@[scoped spec] theorem fetchCode_reaches (pos : UInt32) :
    ⦃fun s => ⌜g.Reaches s⌝⦄ fetchCode pos
    ⦃post⟨fun _ s => ⌜g.Reaches s⌝,
      fun e s => ⌜g.Reaches s ∧ (e = .stepBudgetExceeded ∨ e.RaisedFrom g.prims)⌝⟩⦄ :=
  OpFrame.reaches_of_holds (OpFrame.fetchCode_framed · pos) g

@[scoped spec] theorem trace_reaches (mark : String) (message : Unit → Bytes) :
    ⦃fun s => ⌜g.Reaches s⌝⦄ trace mark message
    ⦃post⟨fun _ s => ⌜g.Reaches s⌝,
      fun e s => ⌜g.Reaches s ∧ (e = .stepBudgetExceeded ∨ e.RaisedFrom g.prims)⌝⟩⦄ :=
  OpFrame.reaches_of_holds (OpFrame.trace_framed · mark message) g

@[scoped spec] theorem dispatch_reaches (base pos code : UInt32) :
    ⦃fun s => ⌜g.Reaches s⌝⦄ dispatch base pos code
    ⦃post⟨fun _ s => ⌜g.Reaches s⌝,
      fun e s => ⌜g.Reaches s ∧ (e = .stepBudgetExceeded ∨ e.RaisedFrom g.prims)⌝⟩⦄ :=
  OpFrame.reaches_of_holds (OpFrame.dispatch_framed · base pos code) g

@[scoped spec] theorem wordInfo_reaches (h : UInt32) :
    ⦃fun s => ⌜g.Reaches s⌝⦄ wordInfo h
    ⦃post⟨fun _ s => ⌜g.Reaches s⌝,
      fun e s => ⌜g.Reaches s ∧ (e = .stepBudgetExceeded ∨ e.RaisedFrom g.prims)⌝⟩⦄ :=
  OpFrame.reaches_of_holds (OpFrame.wordInfo_framed · h) g

@[scoped spec] theorem compileWord_reaches (h : UInt32) :
    ⦃fun s => ⌜g.Reaches s⌝⦄ compileWord h
    ⦃post⟨fun _ s => ⌜g.Reaches s⌝,
      fun e s => ⌜g.Reaches s ∧ (e = .stepBudgetExceeded ∨ e.RaisedFrom g.prims)⌝⟩⦄ :=
  OpFrame.reaches_of_holds (OpFrame.compileWord_framed · h) g

@[scoped spec] theorem parseLiteral_reaches (tok : Bytes) :
    ⦃fun s => ⌜g.Reaches s⌝⦄ parseLiteral tok
    ⦃post⟨fun _ s => ⌜g.Reaches s⌝,
      fun e s => ⌜g.Reaches s ∧ (e = .stepBudgetExceeded ∨ e.RaisedFrom g.prims)⌝⟩⦄ :=
  OpFrame.reaches_of_holds (OpFrame.parseLiteral_framed · tok) g

@[scoped spec] theorem compileOperand_reaches (k : TokenKind) (v : UInt32) :
    ⦃fun s => ⌜g.Reaches s⌝⦄ compileOperand k v
    ⦃post⟨fun _ s => ⌜g.Reaches s⌝,
      fun e s => ⌜g.Reaches s ∧ (e = .stepBudgetExceeded ∨ e.RaisedFrom g.prims)⌝⟩⦄ :=
  OpFrame.reaches_of_holds (OpFrame.compileOperand_framed · k v) g

@[scoped spec] theorem push_reaches (st : StackName) (v : UInt32) :
    ⦃fun s => ⌜g.Reaches s⌝⦄ push st v
    ⦃post⟨fun _ s => ⌜g.Reaches s⌝,
      fun e s => ⌜g.Reaches s ∧ (e = .stepBudgetExceeded ∨ e.RaisedFrom g.prims)⌝⟩⦄ :=
  OpFrame.reaches_of_holds (OpFrame.push_framed · st v) g

@[scoped spec] theorem nextToken_reaches :
    ⦃fun s => ⌜g.Reaches s⌝⦄ nextToken
    ⦃post⟨fun _ s => ⌜g.Reaches s⌝,
      fun e s => ⌜g.Reaches s ∧ (e = .stepBudgetExceeded ∨ e.RaisedFrom g.prims)⌝⟩⦄ :=
  OpFrame.reaches_of_holds OpFrame.nextToken_framed g

/-- Fetching a token counts it; only a spent step budget refuses it. -/
@[scoped spec] theorem fetchToken_reaches (limit : StepLimit) :
    ⦃fun s => ⌜g.Reaches s⌝⦄ fetchToken limit
    ⦃post⟨fun _ s => ⌜g.Reaches s⌝,
      fun e s => ⌜g.Reaches s ∧ (e = .stepBudgetExceeded ∨ e.RaisedFrom g.prims)⌝⟩⦄ := by
  mvcgen [fetchToken]
  · exact ⟨‹_›, .inl trivial⟩
  · exact OpFrame.Reaches.count ‹_›

@[scoped spec] theorem step_reaches (limit : StepLimit) (base : UInt32) :
    ⦃fun s => ⌜g.Reaches s⌝⦄ step limit base
    ⦃post⟨fun _ s => ⌜g.Reaches s⌝,
      fun e s => ⌜g.Reaches s ∧ (e = .stepBudgetExceeded ∨ e.RaisedFrom g.prims)⌝⟩⦄ := by
  mvcgen [step]

@[scoped spec] theorem runSteps_reaches (limit : StepLimit) (base : UInt32) (fuel : Nat) :
    ⦃fun s => ⌜g.Reaches s⌝⦄ runSteps limit base fuel
    ⦃post⟨fun _ s => ⌜g.Reaches s⌝,
      fun e s => ⌜g.Reaches s ∧ (e = .stepBudgetExceeded ∨ e.RaisedFrom g.prims)⌝⟩⦄ := by
  induction fuel with
  | zero =>
    mvcgen [runSteps]
    exact ⟨‹_›, .inl trivial⟩
  | succ fuel ih => mvcgen [runSteps, ih]

@[scoped spec] theorem runWord_reaches (limit : StepLimit) (h : UInt32) :
    ⦃fun s => ⌜g.Reaches s⌝⦄ runWord limit h
    ⦃post⟨fun _ s => ⌜g.Reaches s⌝,
      fun e s => ⌜g.Reaches s ∧ (e = .stepBudgetExceeded ∨ e.RaisedFrom g.prims)⌝⟩⦄ := by
  mvcgen [runWord]

@[scoped spec] theorem interpretToken_reaches (limit : StepLimit) (tok : Bytes) :
    ⦃fun s => ⌜g.Reaches s⌝⦄ interpretToken limit tok
    ⦃post⟨fun _ s => ⌜g.Reaches s⌝,
      fun e s => ⌜g.Reaches s ∧ (e = .stepBudgetExceeded ∨ e.RaisedFrom g.prims)⌝⟩⦄ := by
  mvcgen [interpretToken]
  exact ⟨‹_›, .inr trivial⟩

theorem interpret_reaches (limit : StepLimit) (fuel : Nat) :
    ⦃fun s => ⌜g.Reaches s⌝⦄ interpret limit fuel
    ⦃post⟨fun _ s => ⌜g.Reaches s⌝,
      fun e s => ⌜g.Reaches s ∧ (e = .stepBudgetExceeded ∨ e.RaisedFrom g.prims)⌝⟩⦄ := by
  induction fuel with
  | zero => mvcgen [interpret]
  | succ fuel ih => mvcgen [interpret, ih]

end RunFrame

/-- A run's triple read from one state: the run keeps that state's frame reached. -/
theorem OpFrame.run_reaches {α : Type} {x : Vm α}
    (hx : ∀ g : OpFrame, ⦃fun s => ⌜g.Reaches s⌝⦄ x
      ⦃post⟨fun _ s => ⌜g.Reaches s⌝,
        fun e s => ⌜g.Reaches s ∧ (e = .stepBudgetExceeded ∨ e.RaisedFrom g.prims)⌝⟩⦄)
    (s : Machine) :
    match x.run s with
    | .ok _ t => s.opFrame.Reaches t
    | .error e t => s.opFrame.Reaches t ∧ (e = .stepBudgetExceeded ∨ e.RaisedFrom s.prims) :=
  Vm.run_of_triple fun u hu => by
    subst hu
    exact hx u.opFrame u (OpFrame.holds_self u).reaches

/-- A run never takes back a dispatched token. -/
theorem OpFrame.steps_le_ended {α : Type} {x : Vm α}
    (hx : ∀ g : OpFrame, ⦃fun s => ⌜g.Reaches s⌝⦄ x
      ⦃post⟨fun _ s => ⌜g.Reaches s⌝,
        fun e s => ⌜g.Reaches s ∧ (e = .stepBudgetExceeded ∨ e.RaisedFrom g.prims)⌝⟩⦄)
    (s : Machine) : s.steps ≤ (Vm.ended (x.run s)).steps := by
  have h := OpFrame.run_reaches hx s
  cases hr : x.run s with
  | ok a t =>
    rw [hr] at h
    exact h.2.2.1
  | error e t =>
    rw [hr] at h
    exact h.1.2.2.1

/-! ## Primitive panics -/

/-- A line starts with the machine's table and settings, no token dispatched, and the whole
line unread. -/
theorem Machine.lineStart_opFrame (m : Machine) (line : Bytes) :
    (m.lineStart line).opFrame = ⟨m.prims, m.settings, 0, line⟩ := by
  obtain ⟨t, ht⟩ := Machine.note_eq
    ({ m with line := line, rest := line, token := [], steps := 0 } : Machine) "<" (quote line)
  rw [← Machine.lineStart_def, ht]
  rfl

/-- The errors of kind primitive panic are those a host primitive gives up with. -/
theorem MachineError.eq_of_kind_primitivePanic {e : MachineError}
    (h : e.kind = .primitivePanic) : (∃ v, e = .panicked v) ∨ e = .exited := by
  unfold MachineError.kind at h
  split at h <;> simp_all

/-- A primitive panic raised from a table whose every entry has an action is a host primitive
of it giving up. -/
theorem MachineError.RaisedFrom.hostGivesUp {P : Array Primitive} {e : MachineError}
    (h : e.RaisedFrom P) (hP : ∀ p ∈ P, p.action.isSome) (hk : e.kind = .primitivePanic) :
    HostGivesUp P e := by
  rcases MachineError.eq_of_kind_primitivePanic hk with ⟨v, rfl⟩ | rfl
  · rcases h with h | ⟨p, hp, hnone⟩
    · exact h
    · -- the one panic of the machine's own is the call of an entry without an action
      have hsome := hP p hp
      rw [hnone] at hsome
      cases hsome
  · exact h

/-- A line that faults with a primitive panic, on a machine whose every table entry has an
action (installing refuses any other), ran a host primitive of the table that gave up with that
very error. The interpreter, the compiler and the builtin words never panic themselves: no entry
without an action is called, and no number is formatted in a base outside 2..36. -/
theorem processLine_panic_from_host {m : Machine} {line : Bytes} {f : Fault}
    (hP : ∀ p ∈ m.prims, p.action.isSome)
    (hf : (m.processLine line).2 = some (.fault f)) (hk : f.error.kind = .primitivePanic) :
    HostGivesUp m.prims f.error := by
  obtain ⟨mf, t, hrun, -⟩ :=
    processLine_fault_state (Prod.ext rfl hf :
      m.processLine line = ((m.processLine line).1, some (.fault f)))
  have hframe := OpFrame.run_reaches
    (RunFrame.interpret_reaches · m.stepLimit (line.length + 1)) (m.lineStart line)
  rw [hrun] at hframe
  rcases hframe.2 with hbudget | hraised
  · rw [hbudget] at hk
    cases hk
  · have hprims : (m.lineStart line).prims = m.prims :=
      congrArg OpFrame.prims (Machine.lineStart_opFrame m line)
    exact hprims ▸ hraised.hostGivesUp (hprims ▸ hP) hk

/-! ## Tables whose every entry acts

A machine calls an entry of its table that has no action only if such an entry got in. None
does: laying a machine out starts the table afresh from the runtime words, and installing
refuses a primitive without an action before it touches the table; every other operation keeps
the table. So every machine a session reaches from a creation has a table whose every entry
acts, and on each of them a primitive panic comes from a host primitive. -/

/-- Every entry of the machine's primitive table has an action. -/
def Machine.TableActs (m : Machine) : Prop := ∀ p ∈ m.prims, p.action.isSome

instance : DecidablePred Machine.TableActs := fun m =>
  inferInstanceAs (Decidable (∀ p ∈ m.prims, p.action.isSome))

theorem Machine.TableActs.of_prims {s t : Machine} (hs : s.TableActs) (h : t.prims = s.prims) :
    t.TableActs := fun p hp => hs p (h ▸ hp)

/-- Adding an entry that acts keeps every entry acting. -/
theorem Machine.TableActs.push {m : Machine} (h : m.TableActs) {p : Primitive}
    (hp : p.action.isSome) : { m with prims := m.prims.push p }.TableActs := by
  intro q hq
  rcases Array.mem_push.mp hq with hq | rfl
  · exact h q hq
  · exact hp

theorem runtimeWords_act : ∀ p ∈ runtimeWords.toArray, p.action.isSome := by decide

namespace Machine.TableActs

/-- An operation that keeps every frame keeps the table, so every entry still acts. -/
theorem of_framed {α : Type} {x : Vm α}
    (hx : ∀ g : OpFrame, ⦃fun s => ⌜g.Holds s⌝⦄ x
      ⦃post⟨fun _ s => ⌜g.Holds s⌝, fun e s => ⌜g.Holds s ∧ e.RaisedFrom g.prims⌝⟩⦄) :
    ⦃fun s => ⌜s.TableActs⌝⦄ x ⦃post⟨fun _ s => ⌜s.TableActs⌝, fun _ s => ⌜s.TableActs⌝⟩⦄ :=
  Vm.triple_of_run fun s hs => by
    have h := OpFrame.run_holds hx s
    split <;> rename_i heq <;> rw [heq] at h
    · exact hs.of_prims h.1
    · exact hs.of_prims h.1.1

@[scoped spec] theorem trace_acts (mark : String) (msg : Unit → Bytes) :
    ⦃fun s => ⌜s.TableActs⌝⦄ ForthMachine.trace mark msg
    ⦃post⟨fun _ s => ⌜s.TableActs⌝, fun _ s => ⌜s.TableActs⌝⟩⦄ :=
  of_framed (OpFrame.trace_framed · mark msg)

@[scoped spec] theorem changeRegion_acts (f : Memory.Region → Memory.Region) :
    ⦃fun s => ⌜s.TableActs⌝⦄ changeRegion f
    ⦃post⟨fun _ s => ⌜s.TableActs⌝, fun _ s => ⌜s.TableActs⌝⟩⦄ :=
  of_framed (OpFrame.changeRegion_framed · f)

@[scoped spec] theorem storCell_acts (a v : UInt32) :
    ⦃fun s => ⌜s.TableActs⌝⦄ storCell a v
    ⦃post⟨fun _ s => ⌜s.TableActs⌝, fun _ s => ⌜s.TableActs⌝⟩⦄ :=
  of_framed (OpFrame.storCell_framed · a v)

@[scoped spec] theorem define_acts (name : Bytes) (flags : UInt8) :
    ⦃fun s => ⌜s.TableActs⌝⦄ define name flags
    ⦃post⟨fun _ s => ⌜s.TableActs⌝, fun _ s => ⌜s.TableActs⌝⟩⦄ :=
  of_framed (OpFrame.define_framed · name flags)

@[scoped spec] theorem compileToken_acts (k : TokenKind) (a : UInt32) :
    ⦃fun s => ⌜s.TableActs⌝⦄ compileToken k a
    ⦃post⟨fun _ s => ⌜s.TableActs⌝, fun _ s => ⌜s.TableActs⌝⟩⦄ :=
  of_framed (OpFrame.compileToken_framed · k a)

@[scoped spec] theorem withCache_acts {α : Type} (op : Block.CacheM Block.Disk α) :
    ⦃fun s => ⌜s.TableActs⌝⦄ withCache op
    ⦃post⟨fun _ s => ⌜s.TableActs⌝, fun _ s => ⌜s.TableActs⌝⟩⦄ :=
  of_framed (OpFrame.withCache_framed · op)

@[scoped spec] theorem checkSettings_acts (st : Settings) :
    ⦃fun s => ⌜s.TableActs⌝⦄ checkSettings st
    ⦃post⟨fun _ s => ⌜s.TableActs⌝, fun _ s => ⌜s.TableActs⌝⟩⦄ := by
  mvcgen [checkSettings]

@[scoped spec] theorem installPrimitive_acts (p : Primitive) :
    ⦃fun s => ⌜s.TableActs⌝⦄ installPrimitive p
    ⦃post⟨fun _ s => ⌜s.TableActs⌝, fun _ s => ⌜s.TableActs⌝⟩⦄ := by
  mvcgen [installPrimitive]
  -- the table grows only past the check that the primitive has an action
  exact ‹Machine.TableActs _›.push (by simpa [Option.isSome_iff_ne_none] using ‹¬p.action.isNone = true›)

@[scoped spec] theorem installAll_acts (ps : List Primitive) :
    ⦃fun s => ⌜s.TableActs⌝⦄ installAll ps
    ⦃post⟨fun _ s => ⌜s.TableActs⌝, fun _ s => ⌜s.TableActs⌝⟩⦄ := by
  induction ps with
  | nil => mvcgen [installAll]
  | cons p ps ih =>
    have h : installAll (p :: ps) = (do installPrimitive p; installAll ps) := rfl
    rw [h]
    mvcgen [ih]

@[scoped spec] theorem layOut_acts :
    ⦃fun s => ⌜s.TableActs⌝⦄ layOut ⦃post⟨fun _ s => ⌜s.TableActs⌝, fun _ s => ⌜s.TableActs⌝⟩⦄ := by
  mvcgen [layOut]
  -- what is left is the table laid out afresh
  all_goals exact runtimeWords_act

@[scoped spec] theorem reset_acts :
    ⦃fun s => ⌜s.TableActs⌝⦄ reset ⦃post⟨fun _ s => ⌜s.TableActs⌝, fun _ s => ⌜s.TableActs⌝⟩⦄ := by
  mvcgen [reset]

end Machine.TableActs

/-- An operation that keeps every entry acting keeps it in the state its run ends in. -/
theorem Machine.TableActs.run {α : Type} {x : Vm α}
    (hx : ⦃fun s => ⌜s.TableActs⌝⦄ x ⦃post⟨fun _ s => ⌜s.TableActs⌝, fun _ s => ⌜s.TableActs⌝⟩⦄)
    {s : Machine} (h : s.TableActs) : (Vm.ended (x.run s)).TableActs :=
  EStateM.of_wp_run_eq rfl (fun res => (Vm.ended res).TableActs) fun _ => hx s h

@[simp] theorem Machine.prims_noteAbort (m : Machine) (e : MachineError) :
    (m.noteAbort e).prims = m.prims := by
  obtain ⟨t, ht⟩ := m.noteAbort_eq e
  rw [ht]

@[simp] theorem Machine.prims_noteFlushFailure (m : Machine) :
    m.noteFlushFailure.prims = m.prims := by
  obtain ⟨t, ht⟩ := m.noteFlushFailure_eq
  rw [ht]

@[simp] theorem Machine.prims_recover (m : Machine) (e : MachineError) :
    (m.recover e).1.prims = m.prims := by
  obtain ⟨t, ht⟩ := m.recover_state e
  rw [ht]

/-- A line keeps the primitive table, whether it faults or not. -/
theorem Machine.processLineWithin_prims (m : Machine) (limit : StepLimit) (line : Bytes) :
    (m.processLineWithin limit line).1.prims = m.prims := by
  have hframe := OpFrame.run_reaches
    (RunFrame.interpret_reaches · limit (line.length + 1)) (m.lineStart line)
  have hstart : (m.lineStart line).prims = m.prims :=
    congrArg OpFrame.prims (Machine.lineStart_opFrame m line)
  simp only [Machine.processLineWithin, Machine.lineStart_def]
  split
  · rename_i hok
    rw [hok] at hframe
    split <;> exact hframe.1.trans hstart
  · rename_i e mf herr
    rw [herr] at hframe
    -- the recovery and the trace notes around it keep the table
    simp only [Machine.prims_noteFlushFailure, Machine.prims_recover, Machine.prims_noteAbort]
    exact hframe.1.1.trans hstart

open Machine.TableActs in
/-- Every host call keeps every entry of the table acting, whatever it answers. -/
theorem Machine.TableActs.perform {m : Machine} (h : m.TableActs) (c : HostCall) :
    (m.perform c).TableActs := by
  cases c with
  | line bs => exact h.of_prims (m.processLineWithin_prims _ bs)
  | reset => exact Machine.TableActs.run reset_acts h
  | push v => exact Machine.TableActs.run (of_framed (OpFrame.push_framed · .data v)) h
  | pop => exact Machine.TableActs.run (of_framed (OpFrame.pop_framed · .data)) h
  | peek n => exact Machine.TableActs.run (of_framed (OpFrame.peekCell_framed · n)) h
  | load a => exact Machine.TableActs.run (of_framed (OpFrame.loadData_framed · a)) h
  | store a v => exact Machine.TableActs.run (of_framed (OpFrame.storData_framed · a v)) h
  | flush => exact Machine.TableActs.run (of_framed OpFrame.flushOutput_framed) h

/-- A session keeps every entry of the table acting, call after call. -/
theorem Machine.TableActs.performAll {m : Machine} (h : m.TableActs) (calls : List HostCall) :
    (m.performAll calls).TableActs := by
  induction calls generalizing m with
  | nil => exact h
  | cons c calls ih => exact ih (h.perform c)

/-- A created machine's table has an action in every entry, whether its layout succeeded or
not: the blank machine's table is empty. -/
theorem Machine.tableActs_create (n : Nat) (st : Settings) : (Machine.create n st).1.TableActs := by
  have hb : (Machine.blank n st).TableActs := fun p hp => absurd hp (Array.not_mem_empty p)
  have h := Machine.TableActs.run Machine.TableActs.layOut_acts hb
  unfold Machine.create
  split <;> rename_i heq <;> rw [heq] at h <;> exact h

end ForthMachine
