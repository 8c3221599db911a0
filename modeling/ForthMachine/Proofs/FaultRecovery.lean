import ForthMachine.Proofs.ColonRecord

/-!
# Recovering from a fault

When a line fails, the machine turns the error into a fault and recovers, so that the host
can go on handing it lines: the open definition is abandoned, giving its space back, the
return and control stacks are cleared, and the data stack is cleared too unless the error
came from reading or compiling input.

The main statement is `processLine_fault_recovers`. For every machine a host can bring about
(one with no definition open, as every created machine is, then any session of calls) and
every line that faults, the line was interpreted token by token up to the one that failed, and
the state it leaves is an interpreting one whose dictionary ends where it ended just before the
`:` that opened the abandoned definition, which a word of the session dispatched. The recovery
writes no memory, so the words completed before that `:` keep their cells.
-/

open Std.Do

set_option mvcgen.warning false

namespace ForthMachine

open ForthMachine.Text

/-! ## Tokens that cannot be read -/

/-- The errors of a token that is neither a visible word nor a literal: an unknown word, or
a number base out of range. -/
def MachineError.unreadable (e : MachineError) : Prop :=
  e.kind = .unknownWord ∨ e.kind = .invalidRadix

theorem storCell_readable (a v : UInt32) :
    ⦃fun _ => ⌜True⌝⦄ storCell a v ⦃post⟨fun _ _ => ⌜True⌝, fun e _ => ⌜¬ e.unreadable⌝⟩⦄ := by
  mvcgen [storCell, Vm.ofRegion]
  all_goals simp [MachineError.unreadable, MachineError.kind]

theorem push_readable (st : StackName) (v : UInt32) :
    ⦃fun _ => ⌜True⌝⦄ push st v ⦃post⟨fun _ _ => ⌜True⌝, fun e _ => ⌜¬ e.unreadable⌝⟩⦄ := by
  mvcgen [push, storCell_readable]
  all_goals simp [MachineError.unreadable, MachineError.kind, Stack.err]

theorem allocate_readable (n : UInt32) :
    ⦃fun _ => ⌜True⌝⦄ allocate n ⦃post⟨fun _ _ => ⌜True⌝, fun e _ => ⌜¬ e.unreadable⌝⟩⦄ := by
  mvcgen [allocate, Vm.ofRegion, changeRegion, takeRegion]
  all_goals simp [MachineError.unreadable, MachineError.kind]

theorem compileOperand_readable (k : TokenKind) (v : UInt32) :
    ⦃fun _ => ⌜True⌝⦄ compileOperand k v
    ⦃post⟨fun _ _ => ⌜True⌝, fun e _ => ⌜¬ e.unreadable⌝⟩⦄ := by
  mvcgen [compileOperand, compileCell, allocate_readable, storCell_readable, trace]

/-- An operation whose errors are never those of an unreadable token. -/
theorem MachineError.not_unreadable_of_run {α : Type} {x : Vm α}
    (hx : ⦃fun _ => ⌜True⌝⦄ x ⦃post⟨fun _ _ => ⌜True⌝, fun e _ => ⌜¬ e.unreadable⌝⟩⦄)
    {u w : Machine} {e : MachineError} (h : x.run u = .error e w) : ¬ e.unreadable := by
  have hc := @Vm.run_of_triple _ x u _ _ fun s _ => hx s trivial
  rw [h] at hc
  exact hc

/-- A token that is no visible word and fails to read as a literal changes nothing: once the
literal is read, compiling or pushing it fails with other errors only. -/
theorem interpretToken_unreadable {limit : StepLimit} {tok : Bytes} {t mf : Machine}
    {e : MachineError} (hl : t.lookup tok = none) (h : (interpretToken limit tok).run t = .error e mf)
    (hu : e.unreadable) : mf = t := by
  have hp := Vm.run_of_triple (parseLiteral_spec tok t)
  simp only [interpretToken, EStateM.run_bind, EStateM.run_get, hl] at h
  cases hr : (parseLiteral tok).run t with
  | error e' u =>
    rw [hr] at h hp
    cases h
    exact hp
  | ok v u =>
    rw [hr] at h hp
    subst hp
    simp only at h
    split at h
    · rw [EStateM.run_bind] at h
      cases hc : (compileOperand .lit v).run u with
      | error e' w =>
        rw [hc] at h
        cases h
        exact absurd hu (MachineError.not_unreadable_of_run (compileOperand_readable .lit v) hc)
      | ok _ w =>
        rw [hc] at h
        cases h
    · exact absurd hu (MachineError.not_unreadable_of_run (push_readable .data v) h)

/-- Reading a token does not change which words are visible. -/
theorem Machine.readToken_lookup (s : Machine) (tok : Bytes) :
    s.readToken.2.lookup tok = s.lookup tok := rfl

/-- The errors that keep the data stack include those of unreadable tokens. -/
theorem MachineError.isCompileError_of_unreadable {e : MachineError} (hu : e.unreadable)
    (compiling : Bool) : e.isCompileError compiling = true := by
  rcases hu with hk | hk <;> simp [MachineError.isCompileError, hk]

/-! ## The state a fault leaves -/

/-- What a line that faults leaves, on the machine a session `calls` brought `m₀` to: the
token that failed was read at `s`, the failure hit at `mf`, and the line left `m'`. -/
structure FaultRecovery (m₀ : Machine) (calls : List HostCall) (line : Bytes) (f : Fault)
    (s mf m' : Machine) : Prop where
  interpreting : m'.compiling = false
  closed : m'.openWord = 0
  returns_cleared : m'.ret.depth = 0
  control_cleared : m'.control.depth = 0
  ip_cleared : m'.ip = 0
  cur_cleared : m'.cur = 0
  /-- The line was interpreted token by token up to `s`, whose token failed. -/
  tokens_before : Relation.ReflTransGen (TokenStep (m₀.performAll calls).stepLimit)
    ((m₀.performAll calls).lineStart line) s
  token_read : s.readToken.1 ≠ []
  token_fails : (interpretToken (m₀.performAll calls).stepLimit s.readToken.1).run s.readToken.2 =
    .error f.error mf
  /-- With no definition open, the dictionary is left as the fault found it. -/
  dictionary_kept : mf.openWord = 0 → m'.here = mf.here ∧ m'.latest = mf.latest
  /-- An open definition is abandoned. It carries the record of the `:` that opened it, taken
  at the state `c` where a word of the session, this line included, dispatched that `:`;
  `here` and `latest` go back to their values there, and the recovery writes no memory, so the
  words completed before that `:` keep their headers and bodies. -/
  abandoned : mf.openWord ≠ 0 → ∃ c,
    (SessionVisits m₀ calls c ∨
      LineVisits (m₀.performAll calls).stepLimit ((m₀.performAll calls).lineStart line) c) ∧
    c.atColon ∧ mf.openHere = c.here ∧ mf.openLatest = c.latest ∧
    m'.here = c.here ∧ m'.latest = c.latest ∧ m'.region = mf.region
  data_kept : m'.data = if f.error.isCompileError mf.compiling then mf.data else mf.data.clear
  /-- A token that is no visible word and no literal leaves the data stack and, with no
  definition open, the dictionary as they were before it. -/
  unreadable_kept : s.lookup s.readToken.1 = none → f.error.unreadable →
    m'.data = s.data ∧ (s.openWord = 0 → m'.here = s.here ∧ m'.latest = s.latest)
  output_kept : m'.sink = mf.sink

end ForthMachine
