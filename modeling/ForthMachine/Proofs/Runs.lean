import Mathlib
import ForthMachine.Machine.Session

/-!
# What one run does to the machine

Run-level equations for the operations that the proofs about whole lines go through:
fetching a token, reading a name or a literal, interpreting the rest of a line one token at a
time, and turning an error into a fault. Each is stated as what the operation's run from a
given state returns, so that later proofs case on that result and never unfold the operation.

A triple `⦃fun s => ⌜s = s₀⌝⦄ x ⦃post⟨Q, E⟩⦄` is read back as a fact about `x.run s₀` by
`Vm.run_of_triple`, and facts about the runs from all states that meet a precondition make a
triple by `Vm.triple_of_run`.
-/

open Std.Do

set_option mvcgen.warning false

namespace ForthMachine

open ForthMachine.Text

/-- A triple from one state, read as a fact about the run from that state. -/
theorem Vm.run_of_triple {α : Type} {x : Vm α} {s₀ : Machine} {Q : α → Machine → Prop}
    {E : MachineError → Machine → Prop}
    (h : ⦃fun s => ⌜s = s₀⌝⦄ x ⦃post⟨fun a s => ⌜Q a s⌝, fun e s => ⌜E e s⌝⟩⦄) :
    match x.run s₀ with
    | .ok a t => Q a t
    | .error e t => E e t :=
  EStateM.of_wp_run_eq rfl (fun res => match res with
    | .ok a t => Q a t
    | .error e t => E e t) fun _ => h s₀ rfl

/-- A fact about the run from every state that meets a precondition, read as a triple. -/
theorem Vm.triple_of_run {α : Type} {x : Vm α} {P : Machine → Prop} {Q : α → Machine → Prop}
    {E : MachineError → Machine → Prop}
    (h : ∀ s, P s → match x.run s with
      | .ok a t => Q a t
      | .error e t => E e t) :
    ⦃fun s => ⌜P s⌝⦄ x ⦃post⟨fun a s => ⌜Q a s⌝, fun e s => ⌜E e s⌝⟩⦄ := by
  intro s hs
  have hr := h s hs
  simp only [wp, PredTrans.apply]
  split <;> rename_i heq <;> rw [heq] at hr <;> exact hr

/-- A `do` block that succeeds ran its first part to success, and the rest from where that
ended. -/
theorem Vm.run_bind_ok {α β : Type} {x : Vm α} {f : α → Vm β} {s t : Machine} {b : β}
    (h : (x >>= f).run s = .ok b t) : ∃ a u, x.run s = .ok a u ∧ (f a).run u = .ok b t := by
  rw [EStateM.run_bind] at h
  cases hx : x.run s with
  | ok a u =>
    rw [hx] at h
    exact ⟨a, u, rfl, h⟩
  | error e u =>
    rw [hx] at h
    cases h

/-- A triple from one state, read as a fact about the state its run ends in. -/
theorem Vm.ended_of_triple {α : Type} {x : Vm α} {s₀ : Machine} {P : Machine → Prop}
    (h : ⦃fun s => ⌜s = s₀⌝⦄ x ⦃post⟨fun _ s => ⌜P s⌝, fun _ s => ⌜P s⌝⟩⦄) :
    P (Vm.ended (x.run s₀)) :=
  EStateM.of_wp_run_eq rfl (fun res => P (Vm.ended res)) fun _ => h s₀ rfl

/-! ## Tracing -/

theorem trace_run (mark : String) (message : Unit → Bytes) (m : Machine) :
    ∃ t, (trace mark message).run m = .ok () { m with trace := t } := by
  by_cases h : m.settings.tracing
  · exact ⟨m.trace.push (Bytes.ofString (mark ++ " ") ++ message ()), by simp [trace, h]⟩
  · exact ⟨m.trace, by simp [trace, h]⟩

theorem Machine.note_eq (m : Machine) (mark : String) (message : Bytes) :
    ∃ t, m.note mark message = { m with trace := t } := by
  obtain ⟨t, ht⟩ := trace_run mark (fun _ => message) m
  exact ⟨t, by simp [Machine.note, ht]⟩

/-! ## Fetching and reading -/

theorem fetchCode_run (pos : UInt32) (s : Machine) :
    (fetchCode pos).run s =
      if pos < dictBase || pos.toNat + 4 > s.here.toNat then
        .error (.address ⟨pos, .fetch, .outsideDictionary⟩) s
      else match s.region.loadCell pos with
        | .ok v => .ok v s
        | .error e => .error (.address e) s := by
  simp only [fetchCode, loadCell, Vm.ofRegion, EStateM.run_bind, EStateM.run_get]
  split
  · rfl
  · simp only [EStateM.run_bind, EStateM.run_get]
    cases s.region.loadCell pos <;> rfl

/-- Fetching a token fails with the state as it was, but for the count of tokens, or
succeeds with the cell at the instruction pointer, which moves past it. -/
theorem fetchToken_spec (limit : StepLimit) (s₀ : Machine) :
    ⦃fun s => ⌜s = s₀⌝⦄ fetchToken limit
    ⦃post⟨fun (pos, code) s => ⌜pos = s₀.ip ∧ s₀.region.loadCell s₀.ip = .ok code ∧
        s = { s₀ with steps := s.steps, ip := s₀.ip + 4, trace := s.trace }⌝,
      fun _ s => ⌜s = { s₀ with steps := s.steps }⌝⟩⦄ := by
  mvcgen [fetchToken, fetchCode, loadCell, Vm.ofRegion, trace]
  all_goals subst_vars
  all_goals simp_all +zetaDelta
  -- the trace is recorded or not
  all_goals split <;> rfl

/-- Reading a name moves through the line and changes nothing else. -/
theorem parseName_spec (s₀ : Machine) :
    ⦃fun s => ⌜s = s₀⌝⦄ parseName
    ⦃post⟨fun _ s => ⌜s = { s₀ with rest := s.rest }⌝,
      fun _ s => ⌜s = { s₀ with rest := s.rest }⌝⟩⦄ := by
  mvcgen [parseName, nextToken]
  all_goals subst_vars
  all_goals simp_all +zetaDelta

/-- Reading a literal changes nothing, whether it succeeds or fails. -/
theorem parseLiteral_spec (tok : Bytes) (s₀ : Machine) :
    ⦃fun s => ⌜s = s₀⌝⦄ parseLiteral tok ⦃post⟨fun _ s => ⌜s = s₀⌝, fun _ s => ⌜s = s₀⌝⟩⦄ := by
  mvcgen [parseLiteral, radix, loadCell, Vm.ofRegion]

theorem wordInfo_run (h : UInt32) (t : Machine) :
    (wordInfo h).run t = match t.wordInfo? h with
      | .ok v => .ok v t
      | .error e => .error (.address e) t := by
  simp only [wordInfo, Vm.ofRegion, EStateM.run_bind, EStateM.run_get]
  cases t.wordInfo? h <;> rfl

/-! ## A line, token by token -/

/-- The next token of the line, and the state that interprets it. -/
def Machine.readToken (s : Machine) : Bytes × Machine :=
  ((splitToken s.rest).1,
    { s with rest := (splitToken s.rest).2, token := (splitToken s.rest).1, cur := 0 })

/-- One token of the line is read and interpreted without a fault. -/
def TokenStep (limit : StepLimit) (s s' : Machine) : Prop :=
  s.readToken.1 ≠ [] ∧ (interpretToken limit s.readToken.1).run s.readToken.2 = .ok () s'

/-- The line ends where no token is left, else its next token is interpreted and the rest of
the line after it. -/
theorem interpret_succ_run (limit : StepLimit) (fuel : Nat) (s : Machine) :
    (interpret limit (fuel + 1)).run s =
      if s.readToken.1 = [] then .ok () { s with rest := (splitToken s.rest).2 }
      else match (interpretToken limit s.readToken.1).run s.readToken.2 with
        | .ok _ s' => (interpret limit fuel).run s'
        | .error e s' => .error e s' := by
  simp only [interpret, nextToken, Machine.readToken, EStateM.run_bind, EStateM.run_modifyGet]
  by_cases h : (splitToken s.rest).1 = []
  · simp [h]
  · simp only [h, List.isEmpty_iff, ↓reduceIte, EStateM.run_bind, EStateM.run_modify]
    cases (interpretToken limit (splitToken s.rest).1).run _ <;> rfl

/-- A line that fails has interpreted whole tokens up to one that fails. -/
theorem interpret_error {limit : StepLimit} {fuel : Nat} {s mf : Machine} {e : MachineError}
    (h : (interpret limit fuel).run s = .error e mf) :
    ∃ t, Relation.ReflTransGen (TokenStep limit) s t ∧ t.readToken.1 ≠ [] ∧
      (interpretToken limit t.readToken.1).run t.readToken.2 = .error e mf := by
  induction fuel generalizing s with
  | zero => simp [interpret] at h
  | succ fuel ih =>
    rw [interpret_succ_run] at h
    split at h
    · simp at h
    · rename_i hne
      cases hr : (interpretToken limit s.readToken.1).run s.readToken.2 with
      | error e' u =>
        rw [hr] at h
        cases h
        exact ⟨s, .refl, hne, hr⟩
      | ok _ u =>
        rw [hr] at h
        obtain ⟨t, ht, hne', hf⟩ := ih h
        exact ⟨t, .head ⟨hne, hr⟩ ht, hne', hf⟩

/-! ## Faults -/

theorem abandon_run (m : Machine) :
    ∃ t, abandon.run m = .ok () (if m.openWord = 0 then m else
      { m with here := m.openHere, latest := m.openLatest, openWord := 0, trace := t }) := by
  unfold abandon
  by_cases h : m.openWord = 0
  · exact ⟨m.trace, by simp [h]⟩
  · obtain ⟨t, ht⟩ :=
      trace_run "!" (fun _ => Bytes.ofString "abandon " ++ quote (m.wordName m.openWord)) m
    exact ⟨t, by simp [h, ht]⟩

theorem Machine.recover_state (m : Machine) (e : MachineError) :
    ∃ t, (m.recover e).1 =
      { m with here := if m.openWord = 0 then m.here else m.openHere,
               latest := if m.openWord = 0 then m.latest else m.openLatest,
               openWord := 0, compiling := false, ret := m.ret.clear, control := m.control.clear,
               data := if e.isCompileError m.compiling then m.data else m.data.clear,
               ip := 0, cur := 0, trace := t } := by
  obtain ⟨t₁, h₁⟩ := trace_run "!" (fun _ =>
    (Fault.mk e m.token (if m.cur ≠ 0 then m.wordName m.cur else []) m.line).message) m
  obtain ⟨t₂, h₂⟩ := abandon_run { m with trace := t₁ }
  refine ⟨if m.openWord = 0 then t₁ else t₂, ?_⟩
  simp only [Machine.recover, EStateM.run_bind, h₁, h₂]
  by_cases h : m.openWord = 0 <;> simp [h]

theorem Machine.recover_fault (m : Machine) (e : MachineError) :
    (m.recover e).2 = ⟨e, m.token, if m.cur ≠ 0 then m.wordName m.cur else [], m.line⟩ := by
  simp only [Machine.recover]
  split <;> rfl

/-- The state a line starts from: the line installed as the input, the step count reset, and
the line noted in the trace. -/
def Machine.lineStart (m : Machine) (line : Bytes) : Machine :=
  ({ m with line := line, rest := line, token := [], steps := 0 } : Machine).note "<" (quote line)

theorem Machine.lineStart_def (m : Machine) (line : Bytes) :
    ({ m with line := line, rest := line, token := [], steps := 0 } : Machine).note "<"
      (quote line) = m.lineStart line := rfl

/-- The state a fault leaves, apart from the trace: the recovery applied to the state the fault
hit. -/
def Machine.recovered (m : Machine) (e : MachineError) (t : Array Bytes) : Machine :=
  { m with here := if m.openWord = 0 then m.here else m.openHere,
           latest := if m.openWord = 0 then m.latest else m.openLatest,
           openWord := 0, compiling := false, ret := m.ret.clear, control := m.control.clear,
           data := if e.isCompileError m.compiling then m.data else m.data.clear,
           ip := 0, cur := 0, trace := t }

theorem Machine.noteAbort_eq (m : Machine) (e : MachineError) :
    ∃ t, m.noteAbort e = { m with trace := t } := by
  unfold Machine.noteAbort
  split
  · exact m.note_eq _ _
  · exact ⟨m.trace, rfl⟩

theorem Machine.noteFlushFailure_eq (m : Machine) :
    ∃ t, m.noteFlushFailure = { m with trace := t } := by
  unfold Machine.noteFlushFailure
  split
  · exact m.note_eq _ _
  · exact ⟨m.trace, rfl⟩

/-- A line that faults failed in its interpretation, and the state it leaves is the recovery
from the state the failure hit. -/
theorem processLineWithin_fault_state {limit : StepLimit} {m m' : Machine} {line : Bytes}
    {f : Fault} (h : m.processLineWithin limit line = (m', some (.fault f))) :
    ∃ mf t, (interpret limit (line.length + 1)).run (m.lineStart line) = .error f.error mf ∧
      m' = mf.recovered f.error t ∧ f.token = mf.token ∧ f.line = mf.line := by
  simp only [Machine.processLineWithin, Machine.lineStart_def] at h
  split at h
  · split at h <;> simp at h
  · rename_i e mf hrun
    obtain ⟨hm', hf⟩ := Prod.mk.inj h
    have hf' := (LineError.fault.inj (Option.some.inj hf)).symm
    -- the trace notes around the recovery change nothing else
    obtain ⟨t₁, ht₁⟩ := mf.noteAbort_eq e
    obtain ⟨t₂, ht₂⟩ := ((mf.noteAbort e).recover e).1.noteFlushFailure_eq
    obtain ⟨t₃, hr⟩ := Machine.recover_state { mf with trace := t₁ } e
    rw [ht₁] at hf' ht₂ hm'
    rw [ht₂] at hm'
    subst hf' hm'
    refine ⟨mf, t₂, ?_, ?_, ?_, ?_⟩ <;> simp [Machine.recover_fault, hrun, hr, Machine.recovered]

theorem processLine_fault_state {m m' : Machine} {line : Bytes} {f : Fault}
    (h : m.processLine line = (m', some (.fault f))) :
    ∃ mf t, (interpret m.stepLimit (line.length + 1)).run (m.lineStart line) = .error f.error mf ∧
      m' = mf.recovered f.error t ∧ f.token = mf.token ∧ f.line = mf.line :=
  processLineWithin_fault_state h

/-- A line that does not fault was interpreted to its end. -/
theorem processLineWithin_ok {limit : StepLimit} {m m₁ : Machine} {line : Bytes}
    {r : Option LineError} (h : m.processLineWithin limit line = (m₁, r))
    (hr : ∀ f, r ≠ some (.fault f)) :
    (interpret limit (line.length + 1)).run (m.lineStart line) = .ok () m₁ := by
  simp only [Machine.processLineWithin, Machine.lineStart_def] at h
  split at h
  · rename_i u hrun
    rw [hrun]
    split at h <;> cases h <;> rfl
  · cases h
    exact absurd rfl (hr _)

theorem processLine_ok {m m₁ : Machine} {line : Bytes} {r : Option LineError}
    (h : m.processLine line = (m₁, r)) (hr : ∀ f, r ≠ some (.fault f)) :
    (interpret m.stepLimit (line.length + 1)).run (m.lineStart line) = .ok () m₁ :=
  processLineWithin_ok h hr

end ForthMachine
