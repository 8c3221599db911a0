import Mathlib
import ForthMachine.Proofs.Oblivious

/-!
# A line split in two

Processing a line and then another does what processing the two joined by a blank does, as
long as the first line succeeds, no step budget is set, and every word the first line runs
reads what it parses within that line: open definitions, their control structures and the mode
carry from one line to the next exactly. The two ways end in the same machine but for the line
last read, the trace, the count of dispatched tokens and the last token read, and with the
same error, which the joined line reports as its own.

Until the first line's tokens are spent, the joined run is the run of the first line on an
input that runs on past its end (`Oblivious`). There the joined run reads on into the second
line where the split run starts it afresh, and from its first token on the two runs are the
same but for the line, the trace and the count.
-/

namespace ForthMachine

open ForthMachine.Text

/-- Two machines alike but for the line they last read, their trace, their count of
dispatched tokens and the last token they read. -/
def Machine.SameBeyondLine (x y : Machine) : Prop :=
  ∃ l t n k, y = { x with line := l, trace := t, steps := n, token := k }

/-- The error, reported as raised on the line `l`. -/
def LineError.atLine (l : Bytes) : LineError → LineError
  | .fault f => .fault { f with line := l }
  | e => e

/-! ## Fuel -/

/-- A token read from the input takes at least one byte off it. -/
theorem splitToken_rest_lt {r : Bytes} (h : (splitToken r).1 ≠ []) :
    (splitToken r).2.length < r.length := by
  have happ := congrArg List.length (splitToken_append r)
  have hdrop := (List.dropWhile_suffix isBlank : r.dropWhile isBlank <:+ r).length_le
  have htok : 0 < (splitToken r).1.length := List.length_pos_iff.2 h
  rw [List.length_append] at happ
  omega

/-- Interpreting a token leaves no more input than the token left. -/
theorem interpretToken_rest_le {limit : StepLimit} {x y : Machine}
    (h : (interpretToken limit x.readToken.1).run x.readToken.2 = .ok () y) :
    y.rest.length ≤ (splitToken x.rest).2.length := by
  have hreach := OpFrame.run_reaches (RunFrame.interpretToken_reaches · limit x.readToken.1)
    x.readToken.2
  rw [h] at hreach
  exact hreach.2.2.2.length_le

/-- A round of the outer interpreter that reads a token leaves less input than it found. -/
theorem interpretToken_rest_lt {limit : StepLimit} {x y : Machine}
    (htok : (splitToken x.rest).1 ≠ [])
    (h : (interpretToken limit x.readToken.1).run x.readToken.2 = .ok () y) :
    y.rest.length < x.rest.length :=
  (interpretToken_rest_le h).trans_lt (splitToken_rest_lt htok)

/-- Each round of the outer interpreter reads a token off the input, so fuel beyond the
input's length changes nothing. -/
theorem interpret_fuel_congr (limit : StepLimit) {F G : Nat} {x : Machine}
    (hF : x.rest.length < F) (hG : x.rest.length < G) :
    (interpret limit F).run x = (interpret limit G).run x := by
  induction F generalizing x G with
  | zero => omega
  | succ f ih =>
    obtain ⟨g, rfl⟩ : ∃ g, G = g + 1 := ⟨G - 1, by omega⟩
    rw [interpret_succ_run, interpret_succ_run]
    split
    · rfl
    · rename_i htok
      cases hr : (interpretToken limit x.readToken.1).run x.readToken.2 with
      | error e s' => rfl
      | ok _ s' =>
        have hlt := interpretToken_rest_lt htok hr
        exact ih (by omega) (by omega)

/-! ## The first line, on an input that runs on -/

theorem Vm.extended_ok {α : Type} {σ l : Bytes} {a : α} {x : Machine}
    {r : EStateM.Result MachineError Machine α} (h : Vm.Extended σ l (.ok a x) r) :
    ∃ t n, r = .ok a (x.extend σ l t n) := by
  cases r with
  | ok b y =>
    obtain ⟨rfl, t, n, rfl⟩ := h
    exact ⟨t, n, rfl⟩
  | error => exact h.elim

theorem Vm.extended_error {α : Type} {σ l : Bytes} {e : MachineError} {x : Machine}
    {r : EStateM.Result MachineError Machine α} (h : Vm.Extended σ l (.error e x) r) :
    ∃ t n, r = .error e (x.extend σ l t n) := by
  cases r with
  | ok => exact h.elim
  | error f y =>
    obtain ⟨rfl, t, n, rfl⟩ := h
    exact ⟨t, n, rfl⟩

section Prefix

variable {σ : Bytes}

theorem Machine.readToken_extend (hσ : Separated σ) {x : Machine}
    (h : (splitToken x.rest).1 ≠ []) (l : Bytes) (t : Array Bytes) (n : Nat) :
    (x.extend σ l t n).readToken = (x.readToken.1, x.readToken.2.extend σ l t n) := by
  simp only [Machine.readToken, Machine.extend, splitToken_extend hσ h]

/-- Interpreting a line that reads within itself, on an input that runs on with `σ`: the run
goes as the line's own run until the line's tokens are spent, at the state `z` where the line's
own run finds no token left. -/
theorem interpret_prefix (hσ : Separated σ) (k : Nat) :
    ∀ (F : Nat) (x y : Machine), x.rest.length < F → (interpret (.fuel k) F).run x = .ok () y →
      (∀ c, LineVisits (.fuel k) x c → c.ReadsWithin) →
      ∃ z : Machine, (splitToken z.rest).1 = [] ∧ y = { z with rest := (splitToken z.rest).2 } ∧
        ∀ l t n, ∃ t' n', ∀ G G', (x.rest ++ σ).length < G → (z.rest ++ σ).length < G' →
          (interpret (.fuel k) G).run (x.extend σ l t n) =
            (interpret (.fuel k) G').run (z.extend σ l t' n') := by
  intro F
  induction F with
  | zero => intro x y hF; omega
  | succ f ih =>
    intro x y hF hrun hread
    rw [interpret_succ_run] at hrun
    split at hrun
    · -- no token is left: the line's run ends here
      rename_i hnil
      refine ⟨x, hnil, (EStateM.Result.ok.inj hrun).2.symm, fun l t n => ⟨t, n, ?_⟩⟩
      intro G G' hG hG'
      exact interpret_fuel_congr _ hG hG'
    · rename_i htok
      cases hr : (interpretToken (.fuel k) x.readToken.1).run x.readToken.2 with
      | error e s' =>
        rw [hr] at hrun
        cases hrun
      | ok _ x₁ =>
        rw [hr] at hrun
        have hlt := interpretToken_rest_lt htok hr
        obtain ⟨z, hz, rfl, hrest⟩ := ih x₁ y (by omega) hrun fun c ⟨t, ht, hne, hv⟩ =>
          hread c ⟨t, .head ⟨htok, hr⟩ ht, hne, hv⟩
        refine ⟨z, hz, rfl, fun l t n => ?_⟩
        -- the token, read on the longer input, is the same token and runs alike
        have hx := interpretToken_obliviousAt hσ k x.readToken.1
          (fun c (hc : TokenVisits (.fuel k) x.readToken.1 x.readToken.2 c) =>
            .inr (hread c ⟨x, .refl, htok, hc⟩)) l t n
        rw [hr] at hx
        obtain ⟨t₁, n₁, hx₁⟩ := Vm.extended_ok hx
        obtain ⟨t', n', hz'⟩ := hrest l t₁ n₁
        refine ⟨t', n', fun G G' hG hG' => ?_⟩
        obtain ⟨g, rfl⟩ : ∃ g, G = g + 1 := ⟨G - 1, by omega⟩
        rw [interpret_succ_run, Machine.readToken_extend hσ htok, if_neg htok]
        simp only [hx₁]
        have hlen : (x₁.rest ++ σ).length < g := by
          simp only [List.length_append] at hG ⊢
          omega
        exact hz' g G' hlen hG'

end Prefix

/-! ## Where the first line ends -/

/-- Input that holds no token is all blanks, so what follows a blank after it is read as if
it stood alone. -/
theorem splitToken_blank_append {r : Bytes} (s : Bytes) (h : (splitToken r).1 = []) :
    splitToken (r ++ 0x20 :: s) = splitToken s := by
  have hd : r.dropWhile isBlank = [] := by
    by_contra hne
    obtain ⟨c, rest, hcr⟩ := List.exists_cons_of_ne_nil hne
    have hc := List.head_dropWhile_not isBlank hne
    simp only [hcr, List.head_cons] at hc
    simp [splitToken, hcr, hc] at h
  have hblank : ∀ c ∈ r ++ [0x20], isBlank c = true := by
    intro c hc
    rcases List.mem_append.1 hc with hc | hc
    · exact List.dropWhile_eq_nil_iff.1 hd c hc
    · rw [List.mem_singleton.1 hc]
      rfl
  have hskip : (r ++ 0x20 :: s).dropWhile isBlank = s.dropWhile isBlank := by
    rw [← List.singleton_append, ← List.append_assoc, List.dropWhile_append_of_pos hblank]
  simp only [splitToken, hskip]

/-- The outcome `r'` of interpreting a joined line `j`, against the outcome `r` of
interpreting its second line alone: the same value or error, in states alike but for the line,
which is `j`, the trace and the count. When the line ends without an error, the last token
read may differ too: the second line may hold none. -/
def Vm.AlikeOn (j : Bytes) :
    EStateM.Result MachineError Machine Unit → EStateM.Result MachineError Machine Unit → Prop
  | .ok _ x, .ok _ y => ∃ t n k, y = { x with line := j, trace := t, steps := n, token := k }
  | .error e x, .error f y => e = f ∧ ∃ t n, y = { x with line := j, trace := t, steps := n }
  | _, _ => False

theorem Vm.Extended.alikeOn {j : Bytes} {r r' : EStateM.Result MachineError Machine Unit}
    (h : Vm.Extended [] j r r') : Vm.AlikeOn j r r' := by
  cases r with
  | ok _ x =>
    cases r' with
    | ok _ y =>
      obtain ⟨-, t, n, rfl⟩ := h
      exact ⟨t, n, x.token, by simp [Machine.extend]⟩
    | error => exact h.elim
  | error e x =>
    cases r' with
    | ok => exact h.elim
    | error f y =>
      obtain ⟨rfl, t, n, rfl⟩ := h
      exact ⟨rfl, t, n, by simp [Machine.extend]⟩

theorem Machine.lineStart_eq (m : Machine) (line : Bytes) :
    ∃ t, m.lineStart line =
      { m with line := line, rest := line, token := [], steps := 0, trace := t } := by
  obtain ⟨t, ht⟩ := Machine.note_eq
    ({ m with line := line, rest := line, token := [], steps := 0 } : Machine) "<" (quote line)
  exact ⟨t, by rw [← Machine.lineStart_def, ht]⟩

@[simp] theorem Machine.lineStart_rest (m : Machine) (line : Bytes) :
    (m.lineStart line).rest = line :=
  congrArg OpFrame.rest (m.lineStart_opFrame line)

/-- Where the first line's tokens are spent, the joined run reads on into the second line,
which the split run starts afresh: from there the two go alike. -/
theorem interpret_second_line (k : Nat) {z : Machine} {j b : Bytes}
    (hz : (splitToken z.rest).1 = []) (t : Array Bytes) (n G : Nat)
    (hG : (z.rest ++ 0x20 :: b).length < G) :
    Vm.AlikeOn j ((interpret (.fuel k) (b.length + 1)).run (z.lineStart b))
      ((interpret (.fuel k) G).run (z.extend (0x20 :: b) j t n)) := by
  obtain ⟨g, rfl⟩ : ∃ g, G = g + 1 := ⟨G - 1, by omega⟩
  obtain ⟨tb, htb⟩ := z.lineStart_eq b
  -- the joined run reads on into the second line: the same token, and the same state but for
  -- the line, the trace and the count
  have hread : (z.extend (0x20 :: b) j t n).readToken =
      ((z.lineStart b).readToken.1, (z.lineStart b).readToken.2.extend [] j t n) := by
    rw [htb]
    simp [Machine.readToken, Machine.extend, splitToken_blank_append b hz]
  rw [interpret_succ_run, interpret_succ_run, hread]
  dsimp only
  split
  · -- the second line holds no token
    exact ⟨t, n, z.token, by rw [htb]; simp [Machine.extend, splitToken_blank_append b hz]⟩
  · rename_i htok
    have hx := interpretToken_oblivious_nil k (z.lineStart b).readToken.1
      (z.lineStart b).readToken.2 j t n
    cases hr : (interpretToken (.fuel k) (z.lineStart b).readToken.1).run
        (z.lineStart b).readToken.2 with
    | error e x' =>
      rw [hr] at hx
      obtain ⟨t', n', hj⟩ := Vm.extended_error hx
      rw [hj]
      exact Vm.Extended.alikeOn ⟨rfl, t', n', rfl⟩
    | ok _ x' =>
      rw [hr] at hx
      obtain ⟨t', n', hj⟩ := Vm.extended_ok hx
      rw [hj]
      dsimp only
      -- the rest of the second line, with fuel enough for it on either side
      have hlt := interpretToken_rest_lt htok hr
      rw [Machine.lineStart_rest] at hlt
      have hfuel : (x'.extend [] j t' n').rest.length < g := by
        simp only [Machine.extend, List.append_nil, List.length_append, List.length_cons] at hG ⊢
        omega
      rw [interpret_fuel_congr _ hfuel (by simpa [Machine.extend] using hlt)]
      exact (interpret_oblivious k b.length x' j t' n').alikeOn

/-! ## The end of a line -/

/-- What processing a line makes of the outcome of interpreting it: the output is flushed after
a success, the machine recovers from a fault. -/
def Machine.endLine : EStateM.Result MachineError Machine Unit → Machine × Option LineError
  | .ok _ m =>
    match m.sink.flush with
    | none => (m, none)
    | some e => (m, some (.flush e))
  | .error e m =>
    let r := (m.noteAbort e).recover e
    (r.1.noteFlushFailure, some (.fault r.2))

theorem processLineWithin_eq_endLine (limit : StepLimit) (m : Machine) (line : Bytes) :
    m.processLineWithin limit line =
      Machine.endLine ((interpret limit (line.length + 1)).run (m.lineStart line)) := by
  rw [← Machine.lineStart_def]
  rfl

/-- After a fault the machine is what recovery leaves of the state the fault hit, with the
trace as the notes left it, and the fault names that state's token, word and line. -/
theorem Machine.endLine_error (e : MachineError) (x : Machine) :
    ∃ t, (Machine.endLine (.error e x)).1 = x.recovered e t ∧
      (Machine.endLine (.error e x)).2 =
        some (.fault ⟨e, x.token, if x.cur ≠ 0 then x.wordName x.cur else [], x.line⟩) := by
  -- the notes on either side of the recovery touch the trace only
  obtain ⟨t₀, ht₀⟩ := x.noteAbort_eq e
  obtain ⟨t₁, ht₁⟩ := ({ x with trace := t₀ } : Machine).recover_state e
  obtain ⟨t₂, ht₂⟩ := (({ x with trace := t₀ } : Machine).recover e).1.noteFlushFailure_eq
  refine ⟨t₂, ?_, ?_⟩
  · simp only [Machine.endLine]
    rw [ht₀, ht₂, ht₁]
    rfl
  · simp only [Machine.endLine, ht₀, Machine.recover_fault]
    rfl

/-- Alike outcomes of the interpreter end alike: the same machine but for the line, the trace,
the count and the last token, and the same error, reported for the joined line. -/
theorem endLine_alike {j : Bytes} {r r' : EStateM.Result MachineError Machine Unit}
    (h : Vm.AlikeOn j r r') :
    (Machine.endLine r).1.SameBeyondLine (Machine.endLine r').1 ∧
      (Machine.endLine r').2 = (Machine.endLine r).2.map (LineError.atLine j) := by
  cases r with
  | ok _ x =>
    cases r' with
    | ok _ y =>
      obtain ⟨t, n, k, rfl⟩ := h
      -- the output is the same, so is its flush
      simp only [Machine.endLine]
      split <;> exact ⟨⟨j, t, n, k, rfl⟩, rfl⟩
    | error => exact h.elim
  | error e x =>
    cases r' with
    | ok => exact h.elim
    | error f y =>
      obtain ⟨rfl, t, n, rfl⟩ := h
      obtain ⟨tx, hx, hfx⟩ := Machine.endLine_error e x
      obtain ⟨ty, hy, hfy⟩ := Machine.endLine_error e { x with line := j, trace := t, steps := n }
      rw [hx, hy, hfx, hfy]
      exact ⟨⟨j, ty, n, x.token, rfl⟩, rfl⟩

/-! ## Joining two lines -/

/-- A line that goes on past `a` starts as the line `a` would, with the rest of it still to
read. -/
theorem Machine.lineStart_append (m : Machine) (a σ : Bytes) :
    ∃ t, m.lineStart (a ++ σ) = (m.lineStart a).extend σ (a ++ σ) t 0 := by
  obtain ⟨t, ht⟩ := m.lineStart_eq (a ++ σ)
  obtain ⟨t', ht'⟩ := m.lineStart_eq a
  exact ⟨t, by rw [ht, ht']; rfl⟩

theorem separated_blank (s : Bytes) : Separated (0x20 :: s) := by
  rintro c ⟨⟩
  rfl

/-- **Splitting a line.** Without a step budget, a line `a` that is processed without error, and
whose words read nothing past its end, may be joined to the next line `b` with a blank: the
joined line leaves the machine that processing `a` and then `b` leaves, but for the line, the
trace, the count and the last token, with the same output, and reports the same error, at the
joined line. A definition left open, the control stack and the mode carry from one line to the
next exactly as they do within a line. -/
theorem processLine_append {m : Machine} {a : Bytes} (hbudget : m.settings.stepBudget ≤ 0)
    (hok : (m.processLine a).2 = none)
    (hreads : ∀ c, LineVisits m.stepLimit (m.lineStart a) c → c.ReadsWithin) (b : Bytes) :
    ((m.processLine a).1.processLine b).1.SameBeyondLine (m.processLine (a ++ 0x20 :: b)).1 ∧
      (m.processLine (a ++ 0x20 :: b)).2 =
        ((m.processLine a).1.processLine b).2.map (LineError.atLine (a ++ 0x20 :: b)) := by
  have hL := Machine.stepLimit_of_no_budget hbudget
  -- the first line runs to its end, keeping the settings: the second line has no budget either
  have hrun : (interpret m.stepLimit (a.length + 1)).run (m.lineStart a) =
      .ok () (m.processLine a).1 :=
    processLine_ok (show m.processLine a = ((m.processLine a).1, none) from Prod.ext rfl hok)
      fun _ h => nomatch h
  have hset : (m.processLine a).1.settings = m.settings := by
    have h := OpFrame.run_reaches (RunFrame.interpret_reaches · m.stepLimit (a.length + 1))
      (m.lineStart a)
    rw [hrun, Machine.lineStart_opFrame] at h
    exact h.2.1
  have hL₁ := Machine.stepLimit_of_no_budget (hset ▸ hbudget)
  rw [hL] at hrun hreads
  -- on the joined line the first line's tokens run alike, up to where its last token is read
  obtain ⟨z, hz, hy, hrest⟩ := interpret_prefix (separated_blank b) unboundedSteps (a.length + 1)
    (m.lineStart a) _ (by simp) hrun hreads
  obtain ⟨t₀, hj⟩ := m.lineStart_append a (0x20 :: b)
  obtain ⟨t', n', heq⟩ := hrest (a ++ 0x20 :: b) t₀ 0
  have hsplit : (m.processLine a).1.processLine b =
      Machine.endLine ((interpret (.fuel unboundedSteps) (b.length + 1)).run (z.lineStart b)) := by
    rw [Machine.processLine, hL₁, processLineWithin_eq_endLine, hy]
    rfl
  have hjoin : m.processLine (a ++ 0x20 :: b) =
      Machine.endLine ((interpret (.fuel unboundedSteps) ((z.rest ++ 0x20 :: b).length + 1)).run
        (z.extend (0x20 :: b) (a ++ 0x20 :: b) t' n')) := by
    rw [Machine.processLine, hL, processLineWithin_eq_endLine, hj,
      heq _ _ (by simp) (Nat.lt_succ_self _)]
  rw [hsplit, hjoin]
  exact endLine_alike (interpret_second_line unboundedSteps hz t' n' _ (Nat.lt_succ_self _))

/-- Where no token is left to read, the rest of the line dispatches nothing. -/
theorem not_lineVisits_of_no_token {limit : StepLimit} {s c : Machine}
    (h : (splitToken s.rest).1 = []) : ¬ LineVisits limit s c := by
  rintro ⟨t, ht, hne, -⟩
  rcases ht.cases_head with rfl | ⟨u, hu, -⟩
  · exact hne h
  · exact hu.1 h

/-- A token step goes to the one state that interpreting the token leads to. -/
theorem TokenStep.eq_ended {limit : StepLimit} {s u : Machine} (h : TokenStep limit s u) :
    u = Vm.ended ((interpretToken limit s.readToken.1).run s.readToken.2) := by
  rw [h.2]
  rfl

/-- A run visits the state it starts at, or goes on from the one state its first step leads to,
which that step does not end. -/
theorem RunVisits.eq_or_next {limit : StepLimit} {base : UInt32} {fuel : Nat} {s c : Machine}
    (h : RunVisits limit base fuel s c) :
    c = s ∨ ∃ fuel', RunVisits limit base fuel' (Vm.ended ((step limit base).run s)) c ∧
      (step limit base).run s = .ok false (Vm.ended ((step limit base).run s)) := by
  cases h with
  | start => exact .inl rfl
  | next hs hc =>
    rw [hs]
    exact .inr ⟨_, hc, rfl⟩

/-- A machine with `:` and `;` in its table and a number base of ten: the line `: f 1` leaves a
definition open that the next line `2 ;` closes, as the one line `: f 1 2 ;` does. The `:` finds
the name it reads within the first line. -/
theorem open_definition_joins_next :
    let m := Vm.ended ((do
        installPrimitive (Primitive.named ":" flagImmediate (.compiler .colon))
        installPrimitive (Primitive.named ";" compilingWord (.compiler .semicolon))).run
      { Machine.blank 256 {} with
        region := (Memory.Region.zeroed 256).writeAt 4 (Memory.bytesOfCell 10)
        dictLimit := 200
        dataLimit := 200 })
    let a := Bytes.ofString ": f 1"
    let b := Bytes.ofString "2 ;"
    m.settings.stepBudget ≤ 0 ∧ (m.processLine a).2 = none ∧
      (∀ c, LineVisits m.stepLimit (m.lineStart a) c → c.ReadsWithin) ∧
      ((m.processLine a).1.processLine b).1.SameBeyondLine (m.processLine (a ++ 0x20 :: b)).1 ∧
        (m.processLine (a ++ 0x20 :: b)).2 =
          ((m.processLine a).1.processLine b).2.map (LineError.atLine (a ++ 0x20 :: b)) := by
  intro m a b
  have hreads : ∀ c, LineVisits m.stepLimit (m.lineStart a) c → c.ReadsWithin := by
    rintro c ⟨t, ht, htok, hv⟩
    -- the line's tokens are `:`, which reads `f`, and the literal `1`
    rcases ht.cases_head with rfl | ⟨u, hu, ht⟩
    · -- the run of `:` dispatches its primitive with the name unread, then its `exit`
      obtain ⟨h, ⟨hl, -⟩, hr⟩ := hv
      have hh : (m.lineStart a).readToken.2.lookup (m.lineStart a).readToken.1 = some 12 := by
        decide +kernel
      rw [hh, Option.some.injEq] at hl
      subst hl
      rcases hr.eq_or_next with rfl | ⟨fuel, hr, hs⟩
      · intro act hact
        have hc : act = .compiler .colon := by
          refine Option.some.inj (hact.symm.trans ?_)
          decide +kernel
        subst hc
        show (splitToken _).1 ≠ []
        decide +kernel
      · rcases hr.eq_or_next with rfl | ⟨fuel', -, hs'⟩
        · intro act hact
          have hn : Machine.actionAt (Vm.ended ((step m.stepLimit
              (m.lineStart a).readToken.2.ret.depth).run
              { (m.lineStart a).readToken.2 with cur := 12, ip := 12 + headerSize })) = none := by
            decide +kernel
          rw [hn] at hact
          cases hact
        · -- the `exit` ends the run
          have hdone : ∀ {r : EStateM.Result MachineError Machine Bool} {y : Machine},
              r = .ok false y → (match r with | .ok b _ => b | .error _ _ => true) = false := by
            rintro r y rfl
            rfl
          exact absurd (hdone hs') (by decide +kernel)
    · have hu' := hu.eq_ended
      subst hu'
      rcases ht.cases_head with rfl | ⟨u₂, hu₂, ht₂⟩
      · -- the literal runs no word
        obtain ⟨h, ⟨hl, -⟩, -⟩ := hv
        have hs := congrArg Option.isSome hl
        rw [Option.isSome_some] at hs
        exact absurd hs (by decide +kernel)
      · have hu₂' := hu₂.eq_ended
        subst hu₂'
        rcases ht₂.cases_head with rfl | ⟨u₃, hu₃, -⟩
        · exact absurd htok (by decide +kernel)
        · exact absurd hu₃.1 (by decide +kernel)
  have hbudget : m.settings.stepBudget ≤ 0 := by decide +kernel
  exact ⟨hbudget, by decide +kernel, hreads, processLine_append hbudget (by decide +kernel) hreads b⟩

end ForthMachine
