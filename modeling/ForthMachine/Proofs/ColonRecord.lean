import ForthMachine.Proofs.OpenDefinition
import ForthMachine.Proofs.Runs

/-!
# Where the record of the open definition comes from

`:` records `here` and `latest` before it creates the header of a new definition, and every
other operation keeps that record (`ForthMachine.Proofs.OpenDefinition`). This module follows
the record through whole runs: a step of the inner interpreter, a run of it, a token, a line,
and a session of host calls. Each either keeps the record of the state it started from or
ends with a record taken afresh at a state where the token at the instruction pointer ran
`:`, one of the states the run passed through.

The states a run passes through are named by relations that follow the recursion of the
interpreters (`RunVisits` for the inner one, `TokenVisits` and `LineVisits` for the outer
one, `SessionVisits` for a host's calls), so that "a `:` dispatched during this run" is a
statement about the run and not an arbitrary state.
-/

open Std.Do

set_option mvcgen.warning false

namespace ForthMachine

open ForthMachine.Text

/-- A run from `s` ended in `s'` keeping the record of `s`, or with a record taken afresh at a
state `c` that `P` allows: the values of `here` and `latest` at `c`. -/
def RecordFrom (P : Machine → Prop) (s s' : Machine) : Prop :=
  s.openRecord.Kept s' ∨ ∃ c, P c ∧ s'.openHere = c.here ∧ s'.openLatest = c.latest

theorem RecordFrom.mono {P Q : Machine → Prop} {s s' : Machine} (h : RecordFrom P s s')
    (hPQ : ∀ c, P c → Q c) : RecordFrom Q s s' := by
  rcases h with hk | ⟨c, hc, hh, hl⟩
  · exact .inl hk
  · exact .inr ⟨c, hPQ c hc, hh, hl⟩

/-- A record kept or taken in a first run and then kept or taken in a second. -/
theorem RecordFrom.trans {P Q : Machine → Prop} {s₁ s₂ s₃ : Machine} (h₁ : RecordFrom P s₁ s₂)
    (h₂ : RecordFrom Q s₂ s₃) : RecordFrom (fun c => P c ∨ Q c) s₁ s₃ := by
  rcases h₂ with hk₂ | ⟨c, hc, hh, hl⟩
  · rcases h₁ with hk₁ | ⟨c, hc, hh, hl⟩
    · exact .inl (hk₁.trans hk₂)
    · exact .inr ⟨c, .inl hc, hk₂.1.trans hh, hk₂.2.1.trans hl⟩
  · exact .inr ⟨c, .inr hc, hh, hl⟩

/-- A run may start from any state with the same record. -/
theorem RecordFrom.of_openRecord_eq {P : Machine → Prop} {s₀ s₁ s' : Machine}
    (he : s₁.openRecord = s₀.openRecord) (h : RecordFrom P s₁ s') : RecordFrom P s₀ s' := by
  rcases h with hk | hc
  · exact .inl (he ▸ hk)
  · exact .inr hc

/-- A run that keeps the record may follow. -/
theorem RecordFrom.kept_after {P : Machine → Prop} {s₁ s₂ s₃ : Machine} (h : RecordFrom P s₁ s₂)
    (hk : s₂.openRecord.Kept s₃) : RecordFrom P s₁ s₃ := by
  have hk' : RecordFrom (fun _ => False) s₂ s₃ := .inl hk
  refine (h.trans hk').mono fun c hc => ?_
  rcases hc with hc | hc
  · exact hc
  · exact hc.elim

/-! ## The inner interpreter -/

/-- `:` keeps the record, or records `here` and `latest` as they were when it started. -/
theorem beginDefinition_record (s : Machine) :
    RecordFrom (· = s) s (Vm.ended (beginDefinition.run s)) := by
  unfold beginDefinition
  simp only [EStateM.run_bind, EStateM.run_get]
  split
  · exact .inl (OpenRecord.Keeps.refl _)
  · rw [EStateM.run_bind]
    have hp := Vm.ended_of_triple (parseName_spec s)
    cases hpr : parseName.run s with
    | error e t =>
      simp only [hpr, Vm.ended_error] at hp ⊢
      refine .inl ?_
      rw [hp]
      exact OpenRecord.Keeps.refl _
    | ok name t =>
      simp only [hpr, Vm.ended_ok] at hp ⊢
      simp only [EStateM.run_bind, EStateM.run_get]
      have hd := OpenRecord.kept_run (OpenRecord.define_kept · name flagHidden) t
      cases hdr : (define name flagHidden).run t with
      | error e u =>
        simp only [hdr, Vm.ended_error] at hd ⊢
        refine .inl ?_
        rw [hp] at hd
        exact hd
      | ok h u =>
        simp only [EStateM.run_modify, Vm.ended_ok]
        exact .inr ⟨s, rfl, by rw [hp], by rw [hp]⟩

/-- `code` is the token of a primitive whose action is that of `:`, in the table of `m`. -/
def Machine.runsColon (m : Machine) (code : UInt32) : Prop :=
  Token.kind? code = some .prim ∧
    ∃ p, m.prims[(Token.arg code).toNat]? = some p ∧ p.action = some (.compiler .colon)

/-- The token at the instruction pointer runs `:`. -/
def Machine.atColon (m : Machine) : Prop :=
  ∃ code, m.region.loadCell m.ip = .ok code ∧ m.runsColon code

/-- A token that does not run `:` keeps the record. -/
theorem dispatch_kept (base pos code : UInt32) (r : OpenRecord) :
    ⦃fun s => ⌜r.Kept s ∧ ¬ s.runsColon code⌝⦄ dispatch base pos code
    ⦃post⟨fun _ s => ⌜r.Kept s⌝, fun _ s => ⌜r.Kept s⌝⟩⦄ := by
  open scoped OpenRecord in mvcgen [dispatch, callPrim, OpenRecord.action_kept]
  all_goals simp_all [Machine.runsColon]

/-- A token that runs `:` runs it from the state it was dispatched in. -/
theorem dispatch_colon {base pos code : UInt32} {t : Machine} (h : t.runsColon code) :
    Vm.ended ((dispatch base pos code).run t) = Vm.ended (beginDefinition.run t) := by
  obtain ⟨hk, ⟨name, flags, action⟩, hp, ha⟩ := h
  cases ha
  simp only [dispatch, hk, callPrim, EStateM.run_bind, EStateM.run_get, hp, Action.run,
    CompilerWord.run]
  cases beginDefinition.run t <;> rfl

/-- One step keeps the record, or runs `:`, which records `here` and `latest` as they were. -/
theorem step_record (limit : StepLimit) (base : UInt32) (s : Machine) :
    RecordFrom (fun c => c = s ∧ s.atColon) s (Vm.ended ((step limit base).run s)) := by
  have hf := Vm.run_of_triple (fetchToken_spec limit s)
  simp only [step, EStateM.run_bind]
  cases hr : (fetchToken limit).run s with
  | error e t =>
    simp only [hr] at hf ⊢
    refine .inl ?_
    rw [hf]
    exact OpenRecord.Keeps.refl _
  | ok pc t =>
    obtain ⟨pos, code⟩ := pc
    simp only [hr] at hf ⊢
    obtain ⟨rfl, hcode, ht⟩ := hf
    have hrec : t.openRecord = s.openRecord := by rw [ht]; rfl
    by_cases hc : t.runsColon code
    · -- `:` runs from `t`, which has the `here`, `latest` and record of `s`
      rw [dispatch_colon hc]
      have hsc : s.atColon := ⟨code, hcode, by rw [ht] at hc; exact hc⟩
      rcases beginDefinition_record t with hk | ⟨c, rfl, hh, hl⟩
      · exact .inl (hrec ▸ hk)
      · refine .inr ⟨s, ⟨rfl, hsc⟩, ?_, ?_⟩
        · rw [hh, ht]
        · rw [hl, ht]
    · have hdisp : ⦃fun u => ⌜u = t⌝⦄ dispatch base s.ip code
          ⦃post⟨fun _ u => ⌜s.openRecord.Kept u⌝, fun _ u => ⌜s.openRecord.Kept u⌝⟩⦄ :=
        fun u hu => by
          subst hu
          exact dispatch_kept base s.ip code s.openRecord u ⟨hrec ▸ OpenRecord.Keeps.refl _, hc⟩
      exact .inl (Vm.ended_of_triple hdisp)

/-- The states at which a run of the inner interpreter from `s`, allowed `fuel` tokens,
dispatches a token: `s` itself and, after a step that does not end the run, those of the
rest of the run. -/
inductive RunVisits (limit : StepLimit) (base : UInt32) : Nat → Machine → Machine → Prop
  | start {fuel : Nat} (s : Machine) : RunVisits limit base (fuel + 1) s s
  | next {fuel : Nat} {s s₁ c : Machine} : (step limit base).run s = .ok false s₁ →
      RunVisits limit base fuel s₁ c → RunVisits limit base (fuel + 1) s c

/-- A run of the inner interpreter keeps the record, or ends with one taken by a `:` that
it dispatched. -/
theorem runSteps_record (limit : StepLimit) (base : UInt32) (fuel : Nat) (s : Machine) :
    RecordFrom (fun c => RunVisits limit base fuel s c ∧ c.atColon) s
      (Vm.ended ((runSteps limit base fuel).run s)) := by
  induction fuel generalizing s with
  | zero => exact .inl (OpenRecord.Keeps.refl _)
  | succ fuel ih =>
    have hstep : RecordFrom (fun c => RunVisits limit base (fuel + 1) s c ∧ c.atColon) s
        (Vm.ended ((step limit base).run s)) :=
      (step_record limit base s).mono fun c ⟨hc, ha⟩ => by
        subst hc
        exact ⟨.start c, ha⟩
    simp only [runSteps, EStateM.run_bind]
    cases hr : (step limit base).run s with
    | error e s₁ =>
      simpa [hr] using hstep
    | ok done s₁ =>
      rw [hr] at hstep
      cases done with
      | true => simpa using hstep
      | false =>
        simp only [Bool.false_eq_true, ↓reduceIte]
        refine (hstep.trans (ih s₁)).mono fun c hc => ?_
        rcases hc with hc | ⟨hv, ha⟩
        · exact hc
        · exact ⟨.next hr hv, ha⟩

/-- Running a word keeps the record, or ends with one taken by a `:` that its run
dispatched. -/
theorem runWord_record (limit : StepLimit) (h : UInt32) (t : Machine) :
    RecordFrom (fun c => RunVisits limit t.ret.depth (limit.runFuel t)
      { t with cur := h, ip := h + headerSize } c ∧ c.atColon) t
      (Vm.ended ((runWord limit h).run t)) := by
  simp only [runWord, EStateM.run_bind, EStateM.run_get, EStateM.run_set]
  exact runSteps_record _ _ _ _

/-! ## The outer interpreter -/

/-- Interpreting `tok` at `t` runs the word at `h`: `tok` names it, and it is neither compiled
nor refused as compile-only. -/
def Machine.runsWordFor (t : Machine) (tok : Bytes) (h : UInt32) : Prop :=
  t.lookup tok = some h ∧ ∃ flags n, t.wordInfo? h = .ok (flags, n) ∧
    (t.compiling && !hasFlag flags flagImmediate) = false ∧
    (!t.compiling && hasFlag flags flagCompileOnly) = false

/-- The states at which interpreting `tok` at `t` dispatches a token: those of the run of the
word it runs. -/
def TokenVisits (limit : StepLimit) (tok : Bytes) (t c : Machine) : Prop :=
  ∃ h, t.runsWordFor tok h ∧
    RunVisits limit t.ret.depth (limit.runFuel t) { t with cur := h, ip := h + headerSize } c

/-- A literal keeps the record. -/
theorem interpretToken_kept_of_lookup (limit : StepLimit) (tok : Bytes) (r : OpenRecord) :
    ⦃fun s => ⌜r.Kept s ∧ s.lookup tok = none⌝⦄ interpretToken limit tok
    ⦃post⟨fun _ s => ⌜r.Kept s⌝, fun _ s => ⌜r.Kept s⌝⟩⦄ := by
  open scoped OpenRecord in mvcgen [interpretToken]
  all_goals simp_all

/-- Interpreting a token keeps the record, or ends with one taken by a `:` that the word it
runs dispatched. -/
theorem interpretToken_record (limit : StepLimit) (tok : Bytes) (t : Machine) :
    RecordFrom (fun c => TokenVisits limit tok t c ∧ c.atColon) t
      (Vm.ended ((interpretToken limit tok).run t)) := by
  cases hl : t.lookup tok with
  | none =>
    exact .inl (Vm.ended_of_triple fun u hu => by
      subst hu
      exact interpretToken_kept_of_lookup limit tok u.openRecord u ⟨OpenRecord.Keeps.refl _, hl⟩)
  | some h =>
    simp only [interpretToken, EStateM.run_bind, EStateM.run_get, hl, wordInfo_run]
    cases hw : t.wordInfo? h with
    | error e => exact .inl (OpenRecord.Keeps.refl _)
    | ok info =>
      obtain ⟨flags, n⟩ := info
      simp only
      split
      · exact .inl (OpenRecord.kept_run (OpenRecord.compileWord_kept · h) t)
      · split
        · exact .inl (OpenRecord.Keeps.refl _)
        · rename_i hc hco
          have hruns : t.runsWordFor tok h :=
            ⟨hl, flags, n, hw, by simpa using hc, by simpa using hco⟩
          have hrw : RecordFrom (fun c => TokenVisits limit tok t c ∧ c.atColon) t
              (Vm.ended ((runWord limit h).run t)) :=
            (runWord_record limit h t).mono fun c hc => ⟨⟨h, hruns, hc.1⟩, hc.2⟩
          rw [EStateM.run_bind]
          -- clearing the current word afterwards leaves the record alone
          cases hr : (runWord limit h).run t with
          | error e u =>
            rw [hr] at hrw
            exact hrw
          | ok _ u =>
            rw [hr] at hrw
            exact hrw

/-- The states at which interpreting the rest of the line from `s` dispatches a token: those
of the runs of the words its tokens run. -/
def LineVisits (limit : StepLimit) (s c : Machine) : Prop :=
  ∃ t, Relation.ReflTransGen (TokenStep limit) s t ∧ t.readToken.1 ≠ [] ∧
    TokenVisits limit t.readToken.1 t.readToken.2 c

/-- Interpreting the rest of a line keeps the record, or ends with one taken by a `:` that
one of its words dispatched. -/
theorem interpret_record (limit : StepLimit) (fuel : Nat) (s : Machine) :
    RecordFrom (fun c => LineVisits limit s c ∧ c.atColon) s
      (Vm.ended ((interpret limit fuel).run s)) := by
  induction fuel generalizing s with
  | zero => exact .inl (OpenRecord.Keeps.refl _)
  | succ fuel ih =>
    rw [interpret_succ_run]
    split
    · exact .inl (OpenRecord.Keeps.refl _)
    · rename_i hne
      have htok : RecordFrom (fun c => LineVisits limit s c ∧ c.atColon) s
          (Vm.ended ((interpretToken limit s.readToken.1).run s.readToken.2)) :=
        (interpretToken_record limit s.readToken.1 s.readToken.2).mono fun c hc =>
          ⟨⟨s, .refl, hne, hc.1⟩, hc.2⟩
      cases hr : (interpretToken limit s.readToken.1).run s.readToken.2 with
      | error e u =>
        rw [hr] at htok
        exact htok
      | ok _ u =>
        rw [hr] at htok
        refine (htok.trans (ih u)).mono fun c hc => ?_
        rcases hc with hc | ⟨⟨t, ht, hne', hv⟩, ha⟩
        · exact hc
        · exact ⟨⟨t, .head ⟨hne, hr⟩ ht, hne', hv⟩, ha⟩

/-! ## Lines and sessions -/

theorem Machine.lineStart_openRecord (m : Machine) (line : Bytes) :
    (m.lineStart line).openRecord = m.openRecord := by
  obtain ⟨t, ht⟩ := Machine.note_eq
    ({ m with line := line, rest := line, token := [], steps := 0 } : Machine) "<" (quote line)
  rw [← Machine.lineStart_def, ht]
  rfl

/-- Recovering from a fault closes the definition and keeps the rest of the record. -/
theorem Machine.recovered_keeps (m : Machine) (e : MachineError) (t : Array Bytes) :
    m.openRecord.Kept (m.recovered e t) :=
  ⟨rfl, rfl, .inr rfl⟩

/-- A line keeps the record, or ends with one taken by a `:` that one of its words
dispatched, whether it faults or not. -/
theorem processLine_record (m : Machine) (line : Bytes) :
    RecordFrom (fun c => LineVisits m.stepLimit (m.lineStart line) c ∧ c.atColon) m
      (m.processLine line).1 := by
  have hline := (interpret_record m.stepLimit (line.length + 1) (m.lineStart line)).of_openRecord_eq
    (m.lineStart_openRecord line)
  rcases hp : m.processLine line with ⟨m₁, r⟩
  by_cases hr : ∃ f, r = some (.fault f)
  · obtain ⟨f, rfl⟩ := hr
    obtain ⟨mf, t, hrun, rfl, -, -⟩ := processLine_fault_state hp
    rw [hrun] at hline
    exact hline.kept_after (mf.recovered_keeps f.error t)
  · rw [processLine_ok hp fun f hf => hr ⟨f, hf⟩] at hline
    exact hline

/-- The states at which a call dispatches a token: for a line, those of the runs of the words
its tokens run; the other calls run no words. -/
def CallVisits (m : Machine) : HostCall → Machine → Prop
  | .line bs, c => LineVisits m.stepLimit (m.lineStart bs) c
  | _, _ => False

/-- The states at which a session of calls from `m` dispatches a token. -/
def SessionVisits : Machine → List HostCall → Machine → Prop
  | _, [], _ => False
  | m, call :: calls, c => CallVisits m call c ∨ SessionVisits (m.perform call) calls c

/-- A call keeps the record, or ends with one taken by a `:` that it dispatched. -/
theorem perform_record (m : Machine) (call : HostCall) :
    RecordFrom (fun c => CallVisits m call c ∧ c.atColon) m (m.perform call) := by
  cases call with
  | line bs => exact processLine_record m bs
  | _ => exact .inl (OpenRecord.perform_kept m _ fun _ => nofun)

/-- A session keeps the record, or ends with one taken by a `:` that it dispatched. -/
theorem performAll_record (m : Machine) (calls : List HostCall) :
    RecordFrom (fun c => SessionVisits m calls c ∧ c.atColon) m (m.performAll calls) := by
  induction calls generalizing m with
  | nil => exact .inl (OpenRecord.Keeps.refl _)
  | cons call calls ih =>
    refine ((perform_record m call).trans (ih _)).mono fun c hc => ?_
    rcases hc with ⟨hv, ha⟩ | ⟨hv, ha⟩
    · exact ⟨.inl hv, ha⟩
    · exact ⟨.inr hv, ha⟩

end ForthMachine
