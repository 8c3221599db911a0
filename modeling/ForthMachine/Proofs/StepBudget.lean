import Mathlib
import ForthMachine.Proofs.RunFrame

/-!
# The step budget

A line processed under a step budget of `B` tokens agrees with the same line processed
without one. When the line without a budget finishes within `B` counted tokens, the budgeted
line is the very same run: same state, same result, same output. Otherwise the budgeted
line stops with `StepBudgetExceeded` after exactly `B` tokens. Either way it counts at most
`B` tokens.

Without a budget a run may go on for ever; the model cuts each run off after a fuel of
tokens, a bound that only stands in for a run that never ends. The comparison holds for
every such fuel of at least `B`; and a line that no cut stopped is processed alike with any
more fuel (`processLineWithin_more_fuel`), so what is proved of a line under one fuel holds of
it under every larger one.

`BudgetAgrees` relates the result of a budgeted run to that of the same code without a
budget. It is carried through a `do` block by `BudgetAgrees.bind`, which needs only that the
unbudgeted continuation never takes back a token (`OpFrame.steps_le_ended`), and through an
operation that keeps the frame by `BudgetAgrees.bind_framed`. The interpreter is then one
lemma a level: fetching a token, one step, a run, one token of the line, the rest of the
line, and the line as the host sees it.
-/

open Std.Do

set_option mvcgen.warning false

namespace ForthMachine

open ForthMachine.Text

/-- A run finished within `B` counted tokens: it ended with at most `B` counted, and not
because its limit stopped it. -/
def FinishedWithin {α : Type} (B : Nat) (u : EStateM.Result MachineError Machine α) : Prop :=
  (Vm.ended u).steps ≤ B ∧ ∀ t, u ≠ .error .stepBudgetExceeded t

/-- The result `r` of a run under a step budget of `B` agrees with the result `u` of the same
code run without one: it is `u` when `u` finished within `B` tokens, and otherwise the budget
stopped it after exactly `B`. -/
structure BudgetAgrees {α : Type} (B : Nat) (r u : EStateM.Result MachineError Machine α) :
    Prop where
  finished : FinishedWithin B u → r = u
  stopped : ¬ FinishedWithin B u → ∃ t, r = .error .stepBudgetExceeded t ∧ t.steps = B

@[simp] theorem finishedWithin_ok {α : Type} {B : Nat} {a : α} {t : Machine} :
    FinishedWithin B (.ok a t) ↔ t.steps ≤ B :=
  ⟨fun h => h.1, fun h => ⟨h, fun _ => nofun⟩⟩

@[simp] theorem finishedWithin_error {α : Type} {B : Nat} {e : MachineError} {t : Machine} :
    FinishedWithin B (EStateM.Result.error e t : EStateM.Result MachineError Machine α) ↔
      t.steps ≤ B ∧ e ≠ .stepBudgetExceeded :=
  ⟨fun h => ⟨h.1, fun he => h.2 t (he ▸ rfl)⟩,
    fun h => ⟨h.1, fun _ he => h.2 (EStateM.Result.error.inj he).1⟩⟩

theorem MachineError.RaisedFrom.ne_budget {P : Array Primitive} {e : MachineError}
    (h : e.RaisedFrom P) : e ≠ .stepBudgetExceeded := by
  rintro rfl
  exact h

theorem Vm.run_get_bind {β : Type} (f : Machine → Vm β) (s : Machine) :
    (get >>= f).run s = (f s).run s := rfl

theorem Vm.run_modify_bind {β : Type} (g : Machine → Machine) (f : Unit → Vm β) (s : Machine) :
    (modify g >>= f).run s = (f ()).run (g s) := rfl

/-- An operation that keeps the frame, run from within the budget, finishes within it. -/
theorem finishedWithin_of_framed {α : Type} {B : Nat} {x : Vm α}
    (hx : ∀ g : OpFrame, ⦃fun s => ⌜g.Holds s⌝⦄ x
      ⦃post⟨fun _ s => ⌜g.Holds s⌝, fun e s => ⌜g.Holds s ∧ e.RaisedFrom g.prims⌝⟩⦄)
    {s : Machine} (hs : s.steps ≤ B) : FinishedWithin B (x.run s) := by
  have h := OpFrame.run_holds hx s
  cases hr : x.run s with
  | ok a t =>
    rw [hr] at h
    exact finishedWithin_ok.2 (h.2.2.1.trans_le hs)
  | error e t =>
    rw [hr] at h
    exact finishedWithin_error.2 ⟨h.1.2.2.1.trans_le hs, h.2.ne_budget⟩

namespace BudgetAgrees

variable {α β : Type} {B : Nat}

theorem of_finished {u : EStateM.Result MachineError Machine α} (h : FinishedWithin B u) :
    BudgetAgrees B u u :=
  ⟨fun _ => rfl, fun hn => absurd h hn⟩

theorem of_stopped {r u : EStateM.Result MachineError Machine α} {t : Machine}
    (hr : r = .error .stepBudgetExceeded t) (ht : t.steps = B) (hu : ¬ FinishedWithin B u) :
    BudgetAgrees B r u :=
  ⟨fun h => absurd h hu, fun _ => ⟨t, hr, ht⟩⟩

/-- The agreement of two first parts carries over to the `do` blocks they start, when the
continuations agree from every state within the budget that the unbudgeted part reaches,
and the unbudgeted continuation never takes back a token. -/
theorem bind {xB xL : Vm α} {fB fL : α → Vm β} {s : Machine}
    (hx : BudgetAgrees B (xB.run s) (xL.run s))
    (hf : ∀ a t, xL.run s = .ok a t → t.steps ≤ B →
      BudgetAgrees B ((fB a).run t) ((fL a).run t))
    (hmono : ∀ a t, xL.run s = .ok a t → t.steps ≤ (Vm.ended ((fL a).run t)).steps) :
    BudgetAgrees B ((xB >>= fB).run s) ((xL >>= fL).run s) := by
  rw [EStateM.run_bind, EStateM.run_bind]
  by_cases hfin : FinishedWithin B (xL.run s)
  · rw [hx.finished hfin]
    cases hu : xL.run s with
    | ok a t => exact hf a t hu (by simpa [hu] using hfin.1)
    | error e t =>
      rw [hu, finishedWithin_error] at hfin
      exact of_finished (finishedWithin_error.2 hfin)
  · -- the budget stopped the first part; the unbudgeted block then ends past the budget
    obtain ⟨t, hr, ht⟩ := hx.stopped hfin
    rw [hr]
    refine of_stopped rfl ht fun hblock => hfin ?_
    cases hu : xL.run s with
    | ok a t' =>
      simp only [hu] at hblock
      exact ⟨(hmono a t' hu).trans hblock.1, fun _ => nofun⟩
    | error e t' =>
      simp only [hu, finishedWithin_error] at hblock
      exact finishedWithin_error.2 hblock

/-- An operation that keeps the frame, run first on both sides. -/
theorem bind_framed {x : Vm α} {fB fL : α → Vm β} {s : Machine}
    (hx : ∀ g : OpFrame, ⦃fun s => ⌜g.Holds s⌝⦄ x
      ⦃post⟨fun _ s => ⌜g.Holds s⌝, fun e s => ⌜g.Holds s ∧ e.RaisedFrom g.prims⌝⟩⦄)
    (hs : s.steps ≤ B)
    (hf : ∀ a t, x.run s = .ok a t → t.steps ≤ B →
      BudgetAgrees B ((fB a).run t) ((fL a).run t)) :
    BudgetAgrees B ((x >>= fB).run s) ((x >>= fL).run s) := by
  have hfin := finishedWithin_of_framed hx hs
  rw [EStateM.run_bind, EStateM.run_bind]
  cases hu : x.run s with
  | ok a t =>
    rw [hu, finishedWithin_ok] at hfin
    exact hf a t hu hfin
  | error e t =>
    rw [hu, finishedWithin_error] at hfin
    exact of_finished (finishedWithin_error.2 hfin)

end BudgetAgrees

/-! ## Fetching a token -/

/-- Fetching a token past a spent budget fails and changes nothing. -/
theorem fetchToken_spent {limit : StepLimit} {s : Machine} (h : limit.spent s.steps = true) :
    (fetchToken limit).run s = .error .stepBudgetExceeded s := by
  simp [fetchToken, h]

/-- Two limits that both allow another token fetch it alike. -/
theorem fetchToken_unspent (limit limit' : StepLimit) {s : Machine}
    (h : limit.spent s.steps = false) (h' : limit'.spent s.steps = false) :
    (fetchToken limit).run s = (fetchToken limit').run s := by
  simp [fetchToken, h, h']

/-- A token that the limit allows is counted, whether fetching it succeeds or fails. -/
theorem fetchToken_counts (limit : StepLimit) (s₀ : Machine)
    (h : limit.spent s₀.steps = false) :
    ⦃fun s => ⌜s = s₀⌝⦄ fetchToken limit
    ⦃post⟨fun _ s => ⌜s.steps = s₀.steps + 1⌝,
      fun e s => ⌜s.steps = s₀.steps + 1 ∧ e ≠ .stepBudgetExceeded⌝⟩⦄ := by
  mvcgen [fetchToken, fetchCode, loadCell, Vm.ofRegion, trace]
  all_goals subst_vars
  all_goals simp_all +zetaDelta
  -- the trace is recorded or not
  split <;> rfl

variable {B L : Nat}

/-- Under a budget the token at the budget's end is refused; without one it is counted, and
the run is past the budget. -/
theorem fetchToken_agrees {s : Machine} (hs : s.steps ≤ B) :
    BudgetAgrees B ((fetchToken (.budget B)).run s) ((fetchToken (.fuel L)).run s) := by
  have hfuel := Vm.run_of_triple (fetchToken_counts (.fuel L) s rfl)
  rcases hs.lt_or_eq with hlt | heq
  · rw [fetchToken_unspent (.budget B) (.fuel L) (by simpa [StepLimit.spent] using hlt) rfl]
    apply BudgetAgrees.of_finished
    cases hu : (fetchToken (.fuel L)).run s with
    | ok a t =>
      rw [hu] at hfuel
      exact finishedWithin_ok.2 (by omega)
    | error e t =>
      rw [hu] at hfuel
      exact finishedWithin_error.2 ⟨by omega, hfuel.2⟩
  · refine BudgetAgrees.of_stopped (fetchToken_spent (by simp [StepLimit.spent, heq])) heq
      fun hfin => ?_
    cases hu : (fetchToken (.fuel L)).run s with
    | ok a t =>
      rw [hu] at hfuel hfin
      exact absurd (finishedWithin_ok.1 hfin) (by omega)
    | error e t =>
      rw [hu] at hfuel hfin
      exact absurd (finishedWithin_error.1 hfin).1 (by omega)

/-! ## Runs -/

/-- A step past a spent budget fails and changes nothing. -/
theorem step_spent (limit : StepLimit) (base : UInt32) (s : Machine)
    (h : limit.spent s.steps = true) :
    (step limit base).run s = .error .stepBudgetExceeded s := by
  simp only [step, EStateM.run_bind, fetchToken_spent h]

/-- A step that does not end the run counted one token. -/
theorem step_ok_steps {limit : StepLimit} {base : UInt32} {s t : Machine} {done : Bool}
    (h : (step limit base).run s = .ok done t) : t.steps = s.steps + 1 := by
  simp only [step, EStateM.run_bind] at h
  cases hspent : limit.spent s.steps
  · have hc := Vm.run_of_triple (fetchToken_counts limit s hspent)
    cases hf : (fetchToken limit).run s with
    | ok pc u =>
      obtain ⟨pos, code⟩ := pc
      simp only [hf] at hc h
      have hd := OpFrame.run_holds (OpFrame.dispatch_framed · base pos code) u
      rw [h] at hd
      exact hd.2.2.1.trans hc
    | error e u =>
      rw [hf] at h
      cases h
  · rw [fetchToken_spent hspent] at h
    cases h

theorem step_agrees (base : UInt32) {s : Machine} (hs : s.steps ≤ B) :
    BudgetAgrees B ((step (.budget B) base).run s) ((step (.fuel L) base).run s) := by
  refine BudgetAgrees.bind (fetchToken_agrees hs) (fun fetched t _ ht => ?_)
    (fun fetched t _ => OpFrame.steps_le_ended (RunFrame.dispatch_reaches · base _ _) t)
  exact BudgetAgrees.of_finished
    (finishedWithin_of_framed (OpFrame.dispatch_framed · base fetched.1 fetched.2) ht)

/-- A run under a budget with more fuel than tokens left agrees with the run without one that
has fuel for at least the tokens left. The induction is on the unbudgeted fuel; each step
counts one token, so both fuels keep their bounds. -/
theorem runSteps_agrees (base : UInt32) (nL : Nat) :
    ∀ (nB : Nat) (s : Machine), s.steps ≤ B → B - s.steps < nB → B - s.steps ≤ nL →
      BudgetAgrees B ((runSteps (.budget B) base nB).run s)
        ((runSteps (.fuel L) base nL).run s) := by
  induction nL with
  | zero =>
    intro nB s hs hB hL
    obtain ⟨j, rfl⟩ : ∃ j, nB = j + 1 := ⟨nB - 1, by omega⟩
    have heq : s.steps = B := by omega
    refine BudgetAgrees.of_stopped ?_ heq ?_
    · simp only [runSteps, EStateM.run_bind,
        step_spent (.budget B) base s (by simp [StepLimit.spent, heq])]
    · simp [runSteps, FinishedWithin]
  | succ k ih =>
    intro nB s hs hB hL
    obtain ⟨j, rfl⟩ : ∃ j, nB = j + 1 := ⟨nB - 1, by omega⟩
    refine BudgetAgrees.bind (step_agrees base hs) (fun done t hu ht => ?_) (fun done t _ => ?_)
    · have hsteps := step_ok_steps hu
      cases done
      · exact ih j t ht (by omega) (by omega)
      · exact BudgetAgrees.of_finished (finishedWithin_ok.2 ht)
    · cases done
      · exact OpFrame.steps_le_ended (RunFrame.runSteps_reaches · _ base k) t
      · exact le_rfl

theorem runWord_agrees (hL : B ≤ L) (h : UInt32) {s : Machine} (hs : s.steps ≤ B) :
    BudgetAgrees B ((runWord (.budget B) h).run s) ((runWord (.fuel L) h).run s) := by
  simp only [runWord, EStateM.run_bind, EStateM.run_get, EStateM.run_set, StepLimit.runFuel]
  exact runSteps_agrees _ L _ _ hs (by dsimp only; omega) (by dsimp only; omega)

/-! ## The line -/

/-- Only a word that runs uses the limit; compiling a word and reading a literal keep the
count. -/
theorem interpretToken_agrees (hL : B ≤ L) (tok : Bytes) {s : Machine} (hs : s.steps ≤ B) :
    BudgetAgrees B ((interpretToken (.budget B) tok).run s)
      ((interpretToken (.fuel L) tok).run s) := by
  rw [interpretToken, interpretToken, Vm.run_get_bind, Vm.run_get_bind]
  cases s.lookup tok with
  | some h =>
    refine BudgetAgrees.bind_framed (OpFrame.wordInfo_framed · h) hs fun info t _ ht => ?_
    obtain ⟨flags, n⟩ := info
    dsimp only
    split
    · exact BudgetAgrees.of_finished (finishedWithin_of_framed (OpFrame.compileWord_framed · h) ht)
    · split
      · exact BudgetAgrees.of_finished (finishedWithin_error.2 ⟨ht, by decide⟩)
      · exact BudgetAgrees.bind (runWord_agrees hL h ht)
          (fun _ u _ hu => BudgetAgrees.of_finished (finishedWithin_ok.2 hu)) (fun _ u _ => le_rfl)
  | none =>
    refine BudgetAgrees.bind_framed (OpFrame.parseLiteral_framed · tok) hs fun v t _ ht => ?_
    simp only [Vm.run_get_bind]
    split
    · exact BudgetAgrees.bind_framed (OpFrame.compileOperand_framed · .lit v) ht
        fun _ u _ hu => BudgetAgrees.of_finished (finishedWithin_ok.2 hu)
    · exact BudgetAgrees.of_finished (finishedWithin_of_framed (OpFrame.push_framed · .data v) ht)

/-- The rest of a line under a budget agrees with it without one, token by token. -/
theorem interpret_agrees (hL : B ≤ L) (fuel : Nat) :
    ∀ s : Machine, s.steps ≤ B →
      BudgetAgrees B ((interpret (.budget B) fuel).run s) ((interpret (.fuel L) fuel).run s) := by
  induction fuel with
  | zero => exact fun s hs => BudgetAgrees.of_finished (finishedWithin_ok.2 hs)
  | succ fuel ih =>
    intro s hs
    refine BudgetAgrees.bind_framed OpFrame.nextToken_framed hs fun tok t _ ht => ?_
    split
    · exact BudgetAgrees.of_finished (finishedWithin_ok.2 ht)
    · rw [Vm.run_modify_bind, Vm.run_modify_bind]
      exact BudgetAgrees.bind (interpretToken_agrees hL tok ht) (fun _ u _ hu => ih u hu)
        (fun _ u _ => OpFrame.steps_le_ended (RunFrame.interpret_reaches · _ fuel) u)

/-! ## Lines as the host sees them -/

/-- Whether a line ended in a fault of its spent step budget. -/
def spentBudget : Option LineError → Bool
  | some (.fault f) => f.error == .stepBudgetExceeded
  | _ => false

theorem Machine.note_steps (m : Machine) (mark : String) (message : Bytes) :
    (m.note mark message).steps = m.steps := by
  obtain ⟨t, ht⟩ := Machine.note_eq m mark message
  rw [ht]

theorem Machine.lineStart_steps (m : Machine) (line : Bytes) : (m.lineStart line).steps = 0 :=
  congrArg OpFrame.steps (Machine.lineStart_opFrame m line)

/-- Turning an error into a fault keeps the count of the line's tokens. -/
theorem Machine.faultSteps (m : Machine) (e : MachineError) :
    ((m.noteAbort e).recover e).1.noteFlushFailure.steps = m.steps := by
  obtain ⟨t, ht⟩ := Machine.recover_state (m.noteAbort e) e
  have habort : (m.noteAbort e).steps = m.steps := by
    unfold Machine.noteAbort
    split
    · exact Machine.note_steps _ _ _
    · rfl
  unfold Machine.noteFlushFailure
  split <;> simp only [Machine.note_steps, ht, habort]

/-- A line counts the tokens its interpretation counted. -/
theorem processLineWithin_steps (limit : StepLimit) (m : Machine) (line : Bytes) :
    (m.processLineWithin limit line).1.steps =
      (Vm.ended ((interpret limit (line.length + 1)).run (m.lineStart line))).steps := by
  simp only [Machine.processLineWithin, Machine.lineStart_def]
  cases (interpret limit (line.length + 1)).run (m.lineStart line) with
  | ok _ t =>
    dsimp only
    split <;> rfl
  | error e t => exact Machine.faultSteps t e

/-- A line ends in a fault of its spent budget just when its interpretation stopped so. -/
theorem spentBudget_processLineWithin (limit : StepLimit) (m : Machine) (line : Bytes) :
    spentBudget (m.processLineWithin limit line).2 = true ↔
      ∃ t, (interpret limit (line.length + 1)).run (m.lineStart line) =
        .error .stepBudgetExceeded t := by
  simp only [Machine.processLineWithin, Machine.lineStart_def]
  split
  · rename_i hr
    split <;> simp [spentBudget, hr]
  · rename_i e t hr
    simp [spentBudget, Machine.recover_fault, hr]

/-- The interpretation of a line finished within `B` tokens just when the line counted at most
`B` and did not end in a fault of a spent budget. -/
theorem finishedWithin_line_iff (B : Nat) (limit : StepLimit) (m : Machine) (line : Bytes) :
    FinishedWithin B ((interpret limit (line.length + 1)).run (m.lineStart line)) ↔
      (m.processLineWithin limit line).1.steps ≤ B ∧
        spentBudget (m.processLineWithin limit line).2 = false := by
  rw [processLineWithin_steps, Bool.eq_false_iff, ne_eq, spentBudget_processLineWithin]
  simp only [FinishedWithin, not_exists]

/-- Two limits under which a line is interpreted alike process it alike. -/
theorem processLineWithin_congr {limit limit' : StepLimit} {m : Machine} {line : Bytes}
    (h : (interpret limit (line.length + 1)).run (m.lineStart line) =
      (interpret limit' (line.length + 1)).run (m.lineStart line)) :
    m.processLineWithin limit line = m.processLineWithin limit' line := by
  simp only [Machine.processLineWithin, Machine.lineStart_def, h]

/-- What a step budget of `B` guarantees of a line, against the same line processed without
a budget, each of its runs given a fuel of `L` tokens. -/
structure BudgetedLine (m : Machine) (B L : Nat) (line : Bytes) : Prop where
  /-- The line counts at most `B` tokens, over all the runs of its words. -/
  bounded : (m.processLine line).1.steps ≤ B
  /-- A line that finishes within `B` tokens without a budget, successfully or with a fault,
  is processed identically under it: same state, same output, same result. -/
  same : (m.processLineWithin (.fuel L) line).1.steps ≤ B →
    spentBudget (m.processLineWithin (.fuel L) line).2 = false →
    m.processLine line = m.processLineWithin (.fuel L) line
  /-- Otherwise the budget stops the line after exactly `B` tokens. -/
  stopped : B < (m.processLineWithin (.fuel L) line).1.steps ∨
      spentBudget (m.processLineWithin (.fuel L) line).2 = true →
    spentBudget (m.processLine line).2 = true ∧ (m.processLine line).1.steps = B

/-- **The step budget.** On a machine with a step budget of `B`, a line counts at most `B`
tokens; it is processed exactly as without a budget when that finishes within `B` tokens, and
is stopped after exactly `B` otherwise. Without a budget each run is given any fuel of at
least `B`. -/
theorem processLine_budget_agrees {m : Machine} {B : Nat} (hB : m.settings.stepBudget = B)
    (hpos : 0 < B) (line : Bytes) {L : Nat} (hL : B ≤ L) : BudgetedLine m B L line := by
  have hlimit : m.stepLimit = .budget B := by simp [Machine.stepLimit, hB, hpos]
  have hagree := interpret_agrees hL (line.length + 1) (m.lineStart line)
    (by rw [Machine.lineStart_steps]; omega)
  have hp : m.processLine line = m.processLineWithin (.budget B) line := by
    rw [Machine.processLine, hlimit]
  by_cases hfin : FinishedWithin B ((interpret (.fuel L) (line.length + 1)).run (m.lineStart line))
  · -- the line finishes within the budget: both process it alike
    have heq := hp.trans (processLineWithin_congr (hagree.finished hfin))
    rw [finishedWithin_line_iff] at hfin
    refine ⟨heq ▸ hfin.1, fun _ _ => heq, fun h => ?_⟩
    rcases h with h | h
    · exact absurd hfin.1 (not_le.2 h)
    · rw [hfin.2] at h
      cases h
  · -- the budget stops the line, at its `B`-th token
    obtain ⟨t, hr, ht⟩ := hagree.stopped hfin
    have hsteps : (m.processLine line).1.steps = B := by
      rw [hp, processLineWithin_steps, hr]
      exact ht
    have hspent : spentBudget (m.processLine line).2 = true :=
      hp ▸ (spentBudget_processLineWithin _ _ _).2 ⟨t, hr⟩
    rw [finishedWithin_line_iff] at hfin
    exact ⟨hsteps.le, fun h1 h2 => absurd ⟨h1, h2⟩ hfin, fun _ => ⟨hspent, hsteps⟩⟩

/-! ## More fuel

Without a budget, each run of a line is cut off once it has dispatched its fuel of tokens. The
cut only stands in for a run that never ends: a line that no cut stopped is processed with
any more fuel exactly as it was. `FuelAgrees` relates the result of code run with some fuel
to that of the same code with more, and is carried through a `do` block by `FuelAgrees.bind`;
only a run of a word reads the fuel. -/

/-- The result `u` of code given more fuel agrees with the result `r` of the same code given
less: it is `r`, unless the fuel cut `r` off. -/
def FuelAgrees {α : Type} (r u : EStateM.Result MachineError Machine α) : Prop :=
  (∀ t, r ≠ .error .stepBudgetExceeded t) → u = r

namespace FuelAgrees

variable {α β : Type}

theorem refl (r : EStateM.Result MachineError Machine α) : FuelAgrees r r := fun _ => rfl

/-- The agreement of two first parts carries over to the `do` blocks they start, when the
continuations agree from every state the first part reaches. -/
theorem bind {x x' : Vm α} {f f' : α → Vm β} {s : Machine}
    (hx : FuelAgrees (x.run s) (x'.run s))
    (hf : ∀ a t, x.run s = .ok a t → FuelAgrees ((f a).run t) ((f' a).run t)) :
    FuelAgrees ((x >>= f).run s) ((x' >>= f').run s) := by
  intro hcut
  rw [EStateM.run_bind] at hcut
  rw [EStateM.run_bind, EStateM.run_bind]
  cases hu : x.run s with
  | ok a t =>
    rw [hu] at hcut
    rw [hx (by rw [hu]; exact fun _ => nofun), hu]
    exact hf a t hu hcut
  | error e t =>
    -- the first part failed, and not for want of fuel: so does the block
    have he : e ≠ .stepBudgetExceeded := by
      rintro rfl
      exact hcut t (by rw [hu])
    rw [hx (by rw [hu]; exact fun t' h' => he (EStateM.Result.error.inj h').1), hu]

end FuelAgrees

/-- Two fuels step alike: neither ever refuses a token. -/
theorem step_fuel (n n' : Nat) (base : UInt32) (s : Machine) :
    (step (.fuel n) base).run s = (step (.fuel n') base).run s := by
  simp only [step, EStateM.run_bind, fetchToken_unspent (.fuel n) (.fuel n') rfl rfl]

/-- A run given `k` tokens agrees with it given any `k'` of at least `k`. The induction is on
the smaller fuel; a run out of it is cut off, and the agreement then says nothing. -/
theorem runSteps_more_fuel (n n' : Nat) (base : UInt32) (k : Nat) :
    ∀ k' (s : Machine), k ≤ k' →
      FuelAgrees ((runSteps (.fuel n) base k).run s) ((runSteps (.fuel n') base k').run s) := by
  induction k with
  | zero => exact fun _ s _ hcut => absurd rfl (hcut s)
  | succ k ih =>
    intro k' s hk
    obtain ⟨j, rfl⟩ : ∃ j, k' = j + 1 := ⟨k' - 1, by omega⟩
    refine FuelAgrees.bind (by rw [step_fuel n n']; exact FuelAgrees.refl _) fun done t _ => ?_
    cases done
    · exact ih j t (by omega)
    · exact FuelAgrees.refl _

theorem runWord_more_fuel {n n' : Nat} (hn : n ≤ n') (h : UInt32) (s : Machine) :
    FuelAgrees ((runWord (.fuel n) h).run s) ((runWord (.fuel n') h).run s) := by
  simp only [runWord, EStateM.run_bind, EStateM.run_get, EStateM.run_set, StepLimit.runFuel]
  exact runSteps_more_fuel n n' _ n n' _ hn

/-- Only a word that runs reads the fuel. -/
theorem interpretToken_more_fuel {n n' : Nat} (hn : n ≤ n') (tok : Bytes) (s : Machine) :
    FuelAgrees ((interpretToken (.fuel n) tok).run s) ((interpretToken (.fuel n') tok).run s) := by
  rw [interpretToken, interpretToken, Vm.run_get_bind, Vm.run_get_bind]
  cases s.lookup tok with
  | some h =>
    refine FuelAgrees.bind (FuelAgrees.refl _) fun info t _ => ?_
    obtain ⟨flags, k⟩ := info
    dsimp only
    split
    · exact FuelAgrees.refl _
    · split
      · exact FuelAgrees.refl _
      · exact FuelAgrees.bind (runWord_more_fuel hn h t) fun _ _ _ => FuelAgrees.refl _
  | none => exact FuelAgrees.refl _

/-- The rest of a line given more fuel agrees with it given less, token by token. -/
theorem interpret_more_fuel {n n' : Nat} (hn : n ≤ n') (fuel : Nat) :
    ∀ s : Machine,
      FuelAgrees ((interpret (.fuel n) fuel).run s) ((interpret (.fuel n') fuel).run s) := by
  induction fuel with
  | zero => exact fun s => FuelAgrees.refl _
  | succ fuel ih =>
    intro s
    refine FuelAgrees.bind (FuelAgrees.refl _) fun tok t _ => ?_
    split
    · exact FuelAgrees.refl _
    · rw [Vm.run_modify_bind, Vm.run_modify_bind]
      exact FuelAgrees.bind (interpretToken_more_fuel hn tok _) fun _ u _ => ih u

/-- **Fuel.** Without a budget, the fuel that cuts each run of a line off stands only for a run
that never ends: a line that no cut stopped is processed with any more fuel exactly as it was,
same state, same output, same result. -/
theorem processLineWithin_more_fuel {n n' : Nat} (hn : n ≤ n') (m : Machine) (line : Bytes)
    (hcut : spentBudget (m.processLineWithin (.fuel n) line).2 = false) :
    m.processLineWithin (.fuel n') line = m.processLineWithin (.fuel n) line := by
  rw [Bool.eq_false_iff, ne_eq, spentBudget_processLineWithin, not_exists] at hcut
  exact processLineWithin_congr
    (interpret_more_fuel hn (line.length + 1) (m.lineStart line) hcut)

/-- A machine without a step budget gives each run `unboundedSteps` tokens. -/
theorem Machine.stepLimit_of_no_budget {m : Machine} (h : m.settings.stepBudget ≤ 0) :
    m.stepLimit = .fuel unboundedSteps := by
  simp [Machine.stepLimit, not_lt.2 h]

/-- On a machine without a step budget, a line that no cut stopped is processed as it would be
with any more fuel than `unboundedSteps` for each run. -/
theorem processLine_more_fuel {m : Machine} (hb : m.settings.stepBudget ≤ 0) (line : Bytes)
    {n : Nat} (hn : unboundedSteps ≤ n) (hcut : spentBudget (m.processLine line).2 = false) :
    m.processLineWithin (.fuel n) line = m.processLine line := by
  rw [Machine.processLine, Machine.stepLimit_of_no_budget hb] at hcut ⊢
  exact processLineWithin_more_fuel hn m line hcut

end ForthMachine
