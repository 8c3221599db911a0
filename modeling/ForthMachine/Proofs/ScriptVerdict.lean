import Mathlib
import ForthMachine.Script.Check
import ForthMachine.Proofs.Creation

/-!
# When a check script passes

A script is read line by line. Its lines are inputs (`>`, or `x` for one that must fail),
expected output lines (`<`), settings (`(`, read only before the first input) and comments.
Reading fails on a setting that does not parse, and on an output line that follows no
input or follows an input that must fail.

The verdict of a script is stated here without the reader's accumulators:

* `parseLines_ok_iff`: reading succeeds exactly when the output lines are placed after
  succeeding inputs and the settings apply, and then it yields the settings and one step
  per input, each with the output lines up to the next input;
* `runSteps_eq_none_iff`: the steps go through exactly when `Passes` holds, the rules an
  input must follow on the machine;
* `script_passes_iff`, the main statement: a script passes exactly when its outputs are
  placed, its settings apply, the machine is made, and its steps pass on it.
-/

namespace ForthMachine.Check

open ForthMachine.Text ForthMachine.Input

/-- What a script line is, by its tag: the text up to the first space. -/
inductive LineKind where
  /-- `>` or `x`: an input, one that must fail for `x`. -/
  | input (fails : Bool)
  /-- `<`: a line of output the last input must produce. -/
  | output
  /-- `(`: a setting, read before the first input only. -/
  | setting
  /-- Any other line. -/
  | comment
  deriving DecidableEq

/-- The kind of a script line. -/
def LineKind.of (l : Line) : LineKind :=
  let tag := (cutAtSpace l.text).1
  if tag = [0x3E] then .input false
  else if tag = [0x78] then .input true
  else if tag = [0x3C] then .output
  else if tag = [0x28] then .setting
  else .comment

/-- Whether a kind is that of an input. -/
def LineKind.isInput : LineKind → Bool
  | .input _ => true
  | _ => false

/-- A script line's text after its tag and the space. -/
def afterTag (l : Line) : Bytes := (cutAtSpace l.text).2

/-- The lines up to the next input. -/
def untilInput (ls : List Line) : List Line := ls.takeWhile fun l => !(LineKind.of l).isInput

/-- The output lines among the lines up to the next input: what that input must print. -/
def expectsOf (ls : List Line) : List Bytes :=
  ((untilInput ls).filter fun l => LineKind.of l = .output).map afterTag

/-- One step per input line, in order, each with the output lines that follow it. -/
def stepsOf : List Line → List Step
  | [] => []
  | l :: ls =>
    match LineKind.of l with
    | .input fails => ⟨⟨l.loc, afterTag l⟩, fails, expectsOf ls⟩ :: stepsOf ls
    | _ => stepsOf ls

/-- The settings that the setting lines among `ls` give, applied in order from `f`. -/
def Frontmatter.applyLines (f : Frontmatter) (ls : List Line) : Except SettingError Frontmatter :=
  (ls.filter fun l => LineKind.of l = .setting).foldlM (fun f l => f.apply (afterTag l)) f

/-- No output line stands among the lines up to the next input. -/
def Quiet (ls : List Line) : Prop := ∀ l ∈ untilInput ls, LineKind.of l ≠ .output

/-- After every input that must fail, no output line stands before the next input. -/
def FailsQuiet (ls : List Line) : Prop :=
  ∀ l post, l :: post <:+ ls → LineKind.of l = .input true → Quiet post

/-- Every output line follows an input that must succeed: none stands before the first
input, and none after an input that must fail. -/
def OutputsPlaced (ls : List Line) : Prop := Quiet ls ∧ FailsQuiet ls

/-- The lines of a script. -/
def Script.lines (s : Script) : List Line := readLines [⟨s.name, s.text⟩]

/-! ## The kinds of lines -/

section Kinds

variable {l : Line} {ls : List Line}

theorem LineKind.of_input {fails : Bool} (h : LineKind.of l = .input fails) :
    ((cutAtSpace l.text).1 = [0x3E] || (cutAtSpace l.text).1 = [0x78]) = true ∧
      decide ((cutAtSpace l.text).1 = [0x78]) = fails := by
  simp only [LineKind.of] at h
  generalize (cutAtSpace l.text).1 = tag at h ⊢
  split_ifs at h <;> cases h <;> simp_all

theorem LineKind.of_output (h : LineKind.of l = .output) : (cutAtSpace l.text).1 = [0x3C] := by
  simp only [LineKind.of] at h
  generalize (cutAtSpace l.text).1 = tag at h ⊢
  split_ifs at h
  assumption

theorem LineKind.of_setting (h : LineKind.of l = .setting) : (cutAtSpace l.text).1 = [0x28] := by
  simp only [LineKind.of] at h
  generalize (cutAtSpace l.text).1 = tag at h ⊢
  split_ifs at h
  assumption

theorem LineKind.of_comment (h : LineKind.of l = .comment) :
    (cutAtSpace l.text).1 ≠ [0x3E] ∧ (cutAtSpace l.text).1 ≠ [0x78] ∧
      (cutAtSpace l.text).1 ≠ [0x3C] ∧ (cutAtSpace l.text).1 ≠ [0x28] := by
  simp only [LineKind.of] at h
  generalize (cutAtSpace l.text).1 = tag at h ⊢
  split_ifs at h
  simp_all

@[simp] theorem untilInput_nil : untilInput [] = [] := rfl

theorem untilInput_cons :
    untilInput (l :: ls) = if (LineKind.of l).isInput then [] else l :: untilInput ls := by
  unfold untilInput
  rw [List.takeWhile_cons]
  cases (LineKind.of l).isInput <;> rfl

@[simp] theorem quiet_nil : Quiet [] := by simp [Quiet]

theorem quiet_cons :
    Quiet (l :: ls) ↔ (LineKind.of l).isInput ∨ (LineKind.of l ≠ .output ∧ Quiet ls) := by
  unfold Quiet
  rw [untilInput_cons]
  cases h : (LineKind.of l).isInput <;> simp

@[simp] theorem failsQuiet_nil : FailsQuiet [] := by
  intro l post h
  exact absurd h (by simp)

theorem failsQuiet_cons :
    FailsQuiet (l :: ls) ↔ (LineKind.of l = .input true → Quiet ls) ∧ FailsQuiet ls := by
  constructor
  · intro h
    exact ⟨h l ls List.suffix_rfl, fun l' post hs => h l' post (hs.trans (List.suffix_cons _ _))⟩
  · rintro ⟨hl, hls⟩ l' post hs
    rcases List.suffix_cons_iff.1 hs with heq | hs
    · obtain ⟨rfl, rfl⟩ := List.cons.inj heq
      exact hl
    · exact hls l' post hs

@[simp] theorem expectsOf_nil : expectsOf [] = [] := rfl

@[simp] theorem stepsOf_nil : stepsOf [] = [] := rfl

theorem Frontmatter.applyLines_nil (f : Frontmatter) : f.applyLines [] = .ok f := rfl

theorem expectsOf_cons :
    expectsOf (l :: ls) = match LineKind.of l with
      | .input _ => []
      | .output => afterTag l :: expectsOf ls
      | _ => expectsOf ls := by
  unfold expectsOf
  rw [untilInput_cons]
  cases h : LineKind.of l <;> simp [LineKind.isInput, h]

theorem Frontmatter.applyLines_cons (f : Frontmatter) :
    f.applyLines (l :: ls) =
      if LineKind.of l = .setting then f.apply (afterTag l) >>= fun f' => f'.applyLines ls
      else f.applyLines ls := by
  unfold Frontmatter.applyLines
  rw [List.filter_cons]
  split <;> simp_all [List.foldlM_cons]

theorem addExpect_concat (init : List Step) (s : Step) (b : Bytes) :
    addExpect (init ++ [s]) b = init ++ [{ s with expect := s.expect ++ [b] }] := by
  simp [addExpect]

end Kinds

/-! ## Reading a line of each kind -/

section Reading

variable {f : Frontmatter} {l : Line} {ls : List Line} {init : List Step} {s : Step}

theorem parseLines_input {steps : List Step} {fails : Bool} (h : LineKind.of l = .input fails) :
    parseLines f steps (l :: ls) = parseLines f (steps ++ [⟨⟨l.loc, afterTag l⟩, fails, []⟩]) ls := by
  obtain ⟨h1, h2⟩ := LineKind.of_input h
  simp only [parseLines]
  rw [if_pos h1, h2]
  rfl

theorem parseLines_output_nil (h : LineKind.of l = .output) (r : Frontmatter × List Step) :
    parseLines f [] (l :: ls) ≠ .ok r := by
  simp [parseLines, LineKind.of_output h]

theorem parseLines_output_concat (h : LineKind.of l = .output) :
    parseLines f (init ++ [s]) (l :: ls) =
      if s.fail then .error ⟨l.loc, l.text, .ofString "output without a succeeding input", none⟩
      else parseLines f (init ++ [{ s with expect := s.expect ++ [afterTag l] }]) ls := by
  simp only [parseLines, LineKind.of_output h, List.getLast?_concat, addExpect_concat]
  rfl

theorem parseLines_setting_nil (h : LineKind.of l = .setting) (r : Frontmatter × List Step) :
    parseLines f [] (l :: ls) = .ok r ↔
      ∃ f', f.apply (afterTag l) = .ok f' ∧ parseLines f' [] ls = .ok r := by
  simp only [parseLines, LineKind.of_setting h, afterTag]
  cases f.apply (cutAtSpace l.text).2 <;> simp

theorem parseLines_setting_concat (h : LineKind.of l = .setting) :
    parseLines f (init ++ [s]) (l :: ls) = parseLines f (init ++ [s]) ls := by
  simp [parseLines, LineKind.of_setting h]

theorem parseLines_comment {steps : List Step} (h : LineKind.of l = .comment) :
    parseLines f steps (l :: ls) = parseLines f steps ls := by
  obtain ⟨h1, h2, h3, h4⟩ := LineKind.of_comment h
  simp [parseLines, h1, h2, h3, h4]

end Reading


/-! ## Reading a whole script -/

/-- Reading on after an input: the lines up to the next input add their output lines to that
input's step, and each later input adds a step of its own. -/
theorem parseLines_after_input (f : Frontmatter) (ls : List Line) :
    ∀ (init : List Step) (s : Step) (r : Frontmatter × List Step),
      parseLines f (init ++ [s]) ls = .ok r ↔
        (s.fail → Quiet ls) ∧ FailsQuiet ls ∧
          r = (f, init ++ { s with expect := s.expect ++ expectsOf ls } :: stepsOf ls) := by
  induction ls with
  | nil =>
    intro init s r
    rw [parseLines]
    simp only [Except.ok.injEq, quiet_nil, failsQuiet_nil, expectsOf_nil, stepsOf_nil,
      List.append_nil, implies_true, true_and]
    exact eq_comm
  | cons l ls ih =>
    intro init s r
    cases hk : LineKind.of l with
    | input fails =>
      rw [parseLines_input hk, ih]
      simp [quiet_cons, failsQuiet_cons, expectsOf_cons, stepsOf, hk, LineKind.isInput, and_assoc]
    | output =>
      rw [parseLines_output_concat hk]
      cases hf : s.fail with
      | true => simp [quiet_cons, hk, LineKind.isInput]
      | false =>
        rw [if_neg (by simp), ih]
        simp [failsQuiet_cons, expectsOf_cons, stepsOf, hk]
    | setting =>
      rw [parseLines_setting_concat hk, ih]
      simp [quiet_cons, failsQuiet_cons, expectsOf_cons, stepsOf, hk, LineKind.isInput]
    | comment =>
      rw [parseLines_comment hk, ih]
      simp [quiet_cons, failsQuiet_cons, expectsOf_cons, stepsOf, hk, LineKind.isInput]

/-- Reading from the start: the settings before the first input apply in order, and every
input becomes a step. -/
theorem parseLines_from_start (ls : List Line) :
    ∀ (f : Frontmatter) (r : Frontmatter × List Step),
      parseLines f [] ls = .ok r ↔
        OutputsPlaced ls ∧ ∃ f', f.applyLines (untilInput ls) = .ok f' ∧ r = (f', stepsOf ls) := by
  induction ls with
  | nil =>
    intro f r
    simp [parseLines, OutputsPlaced, Frontmatter.applyLines_nil, eq_comm]
  | cons l ls ih =>
    intro f r
    cases hk : LineKind.of l with
    | input fails =>
      rw [parseLines_input hk, parseLines_after_input]
      simp [OutputsPlaced, quiet_cons, failsQuiet_cons, untilInput_cons, stepsOf, hk,
        LineKind.isInput, Frontmatter.applyLines_nil, and_assoc]
    | output =>
      simp [parseLines_output_nil hk, OutputsPlaced, quiet_cons, hk, LineKind.isInput]
    | setting =>
      rw [parseLines_setting_nil hk]
      cases ha : f.apply (afterTag l) with
      | error e =>
        simp [Frontmatter.applyLines_cons, untilInput_cons, hk, ha, LineKind.isInput, bind,
          Except.bind]
      | ok f₁ =>
        simp [ih, OutputsPlaced, quiet_cons, failsQuiet_cons, untilInput_cons, stepsOf, hk, ha,
          LineKind.isInput, Frontmatter.applyLines_cons, bind, Except.bind]
    | comment =>
      rw [parseLines_comment hk, ih]
      simp [OutputsPlaced, quiet_cons, failsQuiet_cons, untilInput_cons, stepsOf, hk,
        LineKind.isInput, Frontmatter.applyLines_cons]

/-! ## Running the steps -/

/-- The lines an input printed: what reached the primary channel, as lines. -/
def printedLines (m : Machine) : List Bytes :=
  outputLines ((m.sink.captured .primary).getD ByteArray.empty).toList

/-- Printed lines agree with expected ones: as many, and equal one by one once trailing
blanks, tabs and carriage returns are dropped. -/
def LinesAgree (got want : List Bytes) : Prop :=
  List.Forall₂ (fun g w => trimTrailing g = trimTrailing w) got want

/-- The rules a script's steps follow on a machine. Each input runs with the output channels
emptied first; one that must fail faults, and any other runs without a fault and prints the
lines its step expects, if it expects any. -/
inductive Passes : Machine → List Step → Prop where
  | nil (m : Machine) : Passes m []
  | fails {m m' : Machine} {s : Step} {rest : List Step} {e : LineError} :
      s.fail = true → { m with sink := m.sink.drain }.processLine s.line.text = (m', some e) →
      Passes m' rest → Passes m (s :: rest)
  | succeeds {m m' : Machine} {s : Step} {rest : List Step} :
      s.fail = false → { m with sink := m.sink.drain }.processLine s.line.text = (m', none) →
      (s.expect = [] ∨ LinesAgree (printedLines m') s.expect) →
      Passes m' rest → Passes m (s :: rest)

theorem linesMatch_iff (got want : List Bytes) :
    linesMatch got want = true ↔ LinesAgree got want := by
  rw [LinesAgree, List.forall₂_iff_zip]
  simp [linesMatch, List.all_eq_true]

/-- The rules at the first step: it runs on the drained machine, and the rest follow on
what it leaves. -/
theorem passes_cons_iff {m m' : Machine} {s : Step} {rest : List Step} {e : Option LineError}
    (hrun : { m with sink := m.sink.drain }.processLine s.line.text = (m', e)) :
    Passes m (s :: rest) ↔
      (if s.fail then e.isSome = true
        else e = none ∧ (s.expect = [] ∨ LinesAgree (printedLines m') s.expect)) ∧
      Passes m' rest := by
  constructor
  · intro h
    cases h with
    | fails hs hrun' hrest =>
      rw [hrun] at hrun'
      cases hrun'
      simp [hs, hrest]
    | succeeds hs hrun' hout hrest =>
      rw [hrun] at hrun'
      cases hrun'
      simp [hs, hout, hrest]
  · rintro ⟨hstep, hrest⟩
    cases hs : s.fail with
    | true =>
      rw [hs, if_pos rfl] at hstep
      obtain ⟨e, rfl⟩ := Option.isSome_iff_exists.1 hstep
      exact .fails hs hrun hrest
    | false =>
      rw [hs] at hstep
      obtain ⟨rfl, hout⟩ := hstep
      exact .succeeds hs hrun hout hrest

/-- The steps go through exactly when they follow the rules of `Passes`. -/
theorem runSteps_eq_none_iff (m : Machine) (steps : List Step) :
    (runSteps m steps).2 = none ↔ Passes m steps := by
  induction steps generalizing m with
  | nil => exact iff_of_true rfl (.nil m)
  | cons s rest ih =>
    rcases hrun : ({ m with sink := m.sink.drain } : Machine).processLine s.line.text with ⟨m', e⟩
    rw [passes_cons_iff hrun]
    cases e with
    | none =>
      cases hf : s.fail with
      | true => simp [runSteps, hrun, hf]
      | false =>
        simp only [runSteps, hrun, hf, Bool.or_eq_true, List.isEmpty_iff]
        split <;> simp_all [printedLines, ← linesMatch_iff]
    | some e =>
      cases hf : s.fail with
      | true => simp [runSteps, hrun, hf, ih]
      | false => simp [runSteps, hrun, hf]

/-! ## The verdict -/

/-- A script passes exactly when its output lines follow inputs that must succeed, the
settings before its first input apply, the machine they ask for is made, and its steps follow
the rules of `Passes` on that machine. -/
theorem script_passes_iff (s : Script) (opts : List Adjustment) :
    (s.run opts).failure = none ↔
      OutputsPlaced s.lines ∧
        ∃ f, ({} : Frontmatter).applyLines (untilInput s.lines) = .ok f ∧
          (Machine.create f.regionSize (f.settings opts)).2 = none ∧
          Passes (Machine.create f.regionSize (f.settings opts)).1 (stepsOf s.lines) := by
  have hread := parseLines_from_start s.lines {}
  unfold Script.run
  rw [show readLines [⟨s.name, s.text⟩] = s.lines from rfl]
  rcases hp : parseLines {} [] s.lines with e | ⟨f, steps⟩
  · -- reading failed, so the script's lines break a rule of `parseLines_from_start`
    simp only [reduceCtorEq, false_iff]
    rintro ⟨hplaced, f, hf, -⟩
    have hok := (hread _).2 ⟨hplaced, f, hf, rfl⟩
    rw [hp] at hok
    cases hok
  · obtain ⟨hplaced, f', hf', hr⟩ := (hread _).1 hp
    obtain ⟨rfl, rfl⟩ := Prod.mk.inj hr
    rcases hc : Machine.create f.regionSize (f.settings opts) with ⟨m, _ | e⟩
    · simp [hplaced, hf', hc, runSteps_eq_none_iff]
    · simp [hf', hc]

/-- A script of one output line, `< 3`, and nothing else fails: it has no setting to refuse,
the machine is made and there is no input to go wrong, but the output line follows no
input. -/
theorem lone_output_line_fails :
    ({} : Frontmatter).applyLines (untilInput (Script.lines ⟨"t.fth", [0x3C, 0x20, 0x33, 0x0A]⟩)) =
        .ok {} ∧
      stepsOf (Script.lines ⟨"t.fth", [0x3C, 0x20, 0x33, 0x0A]⟩) = [] ∧
      (Machine.create ({} : Frontmatter).regionSize (({} : Frontmatter).settings [])).2 = none ∧
      (Script.run ⟨"t.fth", [0x3C, 0x20, 0x33, 0x0A]⟩ []).failure.isSome :=
  ⟨rfl, rfl,
    create_succeeds _ _ (by unfold Settings.SizesFit; decide) (by unfold Settings.Checked; decide)
      (by decide) (by decide) (by unfold Primitive.Installable; decide +kernel),
    by decide⟩

end ForthMachine.Check
