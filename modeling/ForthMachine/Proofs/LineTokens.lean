import Mathlib
import ForthMachine.Proofs.LineSplit

/-!
# A line is read field by field

The outer interpreter takes its tokens from the unread part of the line. Reading a token skips
the blanks (space, tab, line feed, carriage return, vertical tab and form feed) and takes the
longest run of non-blanks after them, leaving the input just past it; it takes nothing only
when nothing but blanks is left, and then the input is spent. A word that parses reads the
text up to a delimiter from the same input, after skipping the one blank that ends its own
name, and leaves the input just past the delimiter, or spent when there is none.

So when no word of a line reads input (`ReadsNoInput`), the outer interpreter hands its
tokens exactly the line's fields, the maximal runs of non-blanks (`blankFields`), in order, and
stops at the end of the line; or it stops at the first token whose interpretation faults. The
fuel it is given, one more than the length of the line, is never what stops it.

The main statement is `line_tokens_are_fields`.
-/

namespace ForthMachine

open ForthMachine.Text ForthMachine.Memory

/-! ## Reading a token -/

theorem splitToken_decompose (input : Bytes) :
    input = input.takeWhile isBlank ++ (splitToken input).1 ++ (splitToken input).2 := by
  simp [splitToken, List.takeWhile_append_dropWhile]

theorem isBlank_of_mem_takeWhile {input : Bytes} {b : UInt8} (h : b ∈ input.takeWhile isBlank) :
    isBlank b = true :=
  List.mem_takeWhile_imp h

theorem not_isBlank_of_mem_splitToken {input : Bytes} {b : UInt8}
    (h : b ∈ (splitToken input).1) : isBlank b = false := by
  simpa using List.mem_takeWhile_imp h

/-- The token is the longest run of non-blanks: what follows it starts with a blank. -/
theorem isBlank_of_head_splitToken {input : Bytes} {b : UInt8}
    (h : b ∈ (splitToken input).2.head?) : isBlank b = true := by
  have hhead := List.head?_dropWhile_not (fun b => !isBlank b) (input.dropWhile isBlank)
  simp only [splitToken, Option.mem_def] at h
  rw [h] at hhead
  simpa using hhead

/-- No token is read only at the end of the input, which is then spent. -/
theorem splitToken_snd_eq_nil {input : Bytes} (h : (splitToken input).1 = []) :
    (splitToken input).2 = [] := by
  have hhead := List.head?_dropWhile_not isBlank input
  simp only [splitToken] at h ⊢
  cases hd : input.dropWhile isBlank with
  | nil => rfl
  | cons c r =>
    -- the first byte after the blanks is no blank, so it starts the token
    rw [hd] at h hhead
    simp only [List.head?_cons] at hhead
    simp [hhead] at h

theorem splitToken_fst_eq_nil_iff (input : Bytes) :
    (splitToken input).1 = [] ↔ ∀ b ∈ input, isBlank b = true := by
  constructor
  · intro h b hb
    rw [splitToken_decompose input, h, splitToken_snd_eq_nil h] at hb
    simp only [List.append_nil] at hb
    exact isBlank_of_mem_takeWhile hb
  · intro h
    have hblank : input.dropWhile isBlank = [] := List.dropWhile_eq_nil_iff.2 h
    simp [splitToken, hblank]

/-! ## The fields of a line -/

/-- The fields of a line: its maximal runs of non-blank bytes, in order. -/
def blankFields (line : Bytes) : List Bytes :=
  (line.splitOnP isBlank).filter fun f => !f.isEmpty

@[simp] theorem blankFields_nil : blankFields [] = [] := by
  simp [blankFields]

theorem blankFields_blank_cons {b : UInt8} (hb : isBlank b = true) (r : Bytes) :
    blankFields (b :: r) = blankFields r := by
  simp [blankFields, List.splitOnP_cons_eq_if_modifyHead, hb]

theorem blankFields_blank_append {w : Bytes} (hw : ∀ b ∈ w, isBlank b = true) (r : Bytes) :
    blankFields (w ++ r) = blankFields r := by
  induction w with
  | nil => rfl
  | cons b w ih =>
    rw [List.cons_append, blankFields_blank_cons (hw b (by simp))]
    exact ih fun c hc => hw c (by simp [hc])

/-- A run of non-blanks followed by a blank or by the end of the line is the first field. -/
theorem blankFields_field_append {t r : Bytes} (ht : t ≠ []) (htn : ∀ b ∈ t, isBlank b = false)
    (hr : ∀ b ∈ r.head?, isBlank b = true) : blankFields (t ++ r) = t :: blankFields r := by
  cases r with
  | nil => simp [blankFields, List.splitOnP_eq_singleton htn, ht]
  | cons c r =>
    have hc : isBlank c = true := hr c rfl
    rw [blankFields_blank_cons hc]
    simp [blankFields, List.splitOnP_append_cons_of_forall_mem htn c hc, ht]

/-- The fields of the input are the token read from it, if there is one, and the fields of
what is left. -/
theorem blankFields_eq_splitToken (r : Bytes) :
    blankFields r =
      if (splitToken r).1 = [] then [] else (splitToken r).1 :: blankFields (splitToken r).2 := by
  have hskip : blankFields r = blankFields ((splitToken r).1 ++ (splitToken r).2) := by
    conv_lhs => rw [splitToken_decompose r, List.append_assoc]
    exact blankFields_blank_append (fun _ => isBlank_of_mem_takeWhile) _
  rw [hskip]
  split
  · rename_i h
    rw [h, splitToken_snd_eq_nil h, List.append_nil, blankFields_nil]
  · rename_i h
    exact blankFields_field_append h (fun _ => not_isBlank_of_mem_splitToken)
      fun _ => isBlank_of_head_splitToken

/-- A line has no more fields than bytes. -/
theorem blankFields_length_le (r : Bytes) : (blankFields r).length ≤ r.length := by
  induction h : r.length using Nat.strong_induction_on generalizing r with
  | _ n ih =>
    rw [blankFields_eq_splitToken]
    split
    · simp
    · rename_i htok
      -- the token takes at least one byte off the input
      have hlt := splitToken_rest_lt htok
      have hrest := ih _ (h ▸ hlt) _ rfl
      simp only [List.length_cons]
      omega

/-! ## Reading up to a delimiter -/

/-- A word that reads up to a delimiter skips the first byte of its input if that is a blank,
and nothing else. -/
theorem afterBlank_cases (input : Bytes) :
    (afterBlank input = input ∧ ∀ b ∈ input.head?, isBlank b = false) ∨
      ∃ b, isBlank b = true ∧ input = b :: afterBlank input := by
  cases input with
  | nil => exact .inl ⟨rfl, fun _ h => by cases h⟩
  | cons b r => by_cases hb : isBlank b <;> simp [afterBlank, hb]

/-- The text read up to a delimiter holds none, and the delimiter follows it in the searched
input, with what is left after; without a delimiter the text is all of that input. -/
theorem splitUntil_spec (d : UInt8) (input : Bytes) :
    d ∉ (splitUntil d input).1 ∧
      (afterBlank input = (splitUntil d input).1 ++ d :: (splitUntil d input).2 ∨
        ((splitUntil d input).1 = afterBlank input ∧ (splitUntil d input).2 = [])) := by
  rw [splitUntil_eq_afterBlank]
  cases hi : (afterBlank input).idxOf? d with
  | none => exact ⟨List.idxOf?_eq_none_iff.1 hi, .inr ⟨rfl, rfl⟩⟩
  | some i =>
    obtain ⟨hlt, hget, hbefore⟩ := List.idxOf?_eq_some_iff.1 hi
    refine ⟨fun hmem => ?_, .inl ?_⟩
    · -- an earlier delimiter would have been found first
      obtain ⟨j, hj, hjd⟩ := List.getElem_of_mem hmem
      rw [List.length_take] at hj
      exact hbefore j (by omega) (by simpa using hjd)
    · conv_lhs => rw [← List.take_append_drop i (afterBlank input), List.drop_eq_getElem_cons hlt]
      rw [hget]

/-! ## The outer interpreter, token by token -/

/-- Reading a token is deterministic: one token step leads to one state. -/
theorem TokenStep.determ {limit : StepLimit} {s t u : Machine} (ht : TokenStep limit s t)
    (hu : TokenStep limit s u) : t = u := by
  have h := ht.2.symm.trans hu.2
  injection h

/-- Every token that interpreting the rest of the line from `s` reads and interprets without a
fault reads no input of its own: after it, the unread input is what reading the token left. -/
def ReadsNoInput (limit : StepLimit) (s : Machine) : Prop :=
  ∀ t t', Relation.ReflTransGen (TokenStep limit) s t → TokenStep limit t t' →
    t'.rest = (splitToken t.rest).2

theorem ReadsNoInput.tail {limit : StepLimit} {s t : Machine} (h : ReadsNoInput limit s)
    (hstep : TokenStep limit s t) : ReadsNoInput limit t :=
  fun u u' hu hu' => h u u' (.head hstep hu) hu'

/-- A line with no token left reads no input. -/
theorem ReadsNoInput.of_spent {limit : StepLimit} {s : Machine} (h : (splitToken s.rest).1 = []) :
    ReadsNoInput limit s := by
  intro t t' ht hstep
  rcases ht.cases_head with rfl | ⟨u, hu, -⟩
  · exact absurd h hstep.1
  · exact absurd h hu.1

/-- A token that reads no input, followed by a rest of the line that reads none. -/
theorem ReadsNoInput.step {limit : StepLimit} {s t : Machine} (hstep : TokenStep limit s t)
    (hrest : t.rest = (splitToken s.rest).2) (ht : ReadsNoInput limit t) :
    ReadsNoInput limit s := by
  intro u u' hu hstep'
  rcases hu.cases_head with rfl | ⟨v, hv, hvu⟩
  · rw [← hstep.determ hstep', hrest]
  · exact ht u u' (hstep.determ hv ▸ hvu) hstep'

/-- `TokensRun limit s toks u`: from `s` the outer interpreter reads the tokens `toks`, in
order, and interprets each of them without a fault, reaching `u`. -/
inductive TokensRun (limit : StepLimit) : Machine → List Bytes → Machine → Prop
  | nil (s : Machine) : TokensRun limit s [] s
  | cons {s t u : Machine} {toks : List Bytes} :
      TokenStep limit s t → TokensRun limit t toks u → TokensRun limit s (s.readToken.1 :: toks) u

/-- The outcome `res` of interpreting the rest of the line from `s` handed the token
interpreter exactly the fields of the unread input: all of them, in order, after which the
input is spent; or those before one, whose interpretation faulted with the error and in the
state of `res`. -/
def InterpretsFields (limit : StepLimit) (s : Machine) :
    EStateM.Result MachineError Machine Unit → Prop
  | .ok _ s' => ∃ t, TokensRun limit s (blankFields s.rest) t ∧ s' = { t with rest := [] }
  | .error e s' => ∃ pre tok post t, blankFields s.rest = pre ++ tok :: post ∧
      TokensRun limit s pre t ∧ t.readToken.1 = tok ∧
      (interpretToken limit tok).run t.readToken.2 = .error e s'

/-- A token read and interpreted without reading input of its own is the first field of the
line; the fields handed over after it are the line's others. -/
theorem InterpretsFields.cons {limit : StepLimit} {s t : Machine}
    {res : EStateM.Result MachineError Machine Unit} (hstep : TokenStep limit s t)
    (hrest : t.rest = (splitToken s.rest).2) (h : InterpretsFields limit t res) :
    InterpretsFields limit s res := by
  have hfields : blankFields s.rest = s.readToken.1 :: blankFields t.rest := by
    have htok : (splitToken s.rest).1 ≠ [] := hstep.1
    rw [blankFields_eq_splitToken, if_neg htok, hrest]
    rfl
  cases res with
  | ok u s' =>
    obtain ⟨v, hrun, rfl⟩ := h
    exact ⟨v, hfields ▸ .cons hstep hrun, rfl⟩
  | error e s' =>
    obtain ⟨pre, tok, post, v, hf, hrun, htok, herr⟩ := h
    exact ⟨s.readToken.1 :: pre, tok, post, v, by rw [hfields, hf]; rfl, .cons hstep hrun, htok,
      herr⟩

/-- When the tokens of a line read no input, interpreting it with more fuel than it has fields
hands over its fields in order, up to its end or to a fault. -/
theorem interpret_fields {limit : StepLimit} {fuel : Nat} {s : Machine}
    (hno : ReadsNoInput limit s) (hfuel : (blankFields s.rest).length < fuel) :
    InterpretsFields limit s ((interpret limit fuel).run s) := by
  -- induction on the fuel, which each token spends one of, as it takes one field off the line
  induction fuel generalizing s with
  | zero => exact absurd hfuel (Nat.not_lt_zero _)
  | succ fuel ih =>
    rw [interpret_succ_run]
    by_cases htok : s.readToken.1 = []
    · rw [if_pos htok]
      have hnil : (splitToken s.rest).1 = [] := htok
      have hfields : blankFields s.rest = [] := by rw [blankFields_eq_splitToken, if_pos hnil]
      refine ⟨s, hfields ▸ .nil s, ?_⟩
      rw [splitToken_snd_eq_nil hnil]
    · rw [if_neg htok]
      have hfields : blankFields s.rest = s.readToken.1 :: blankFields (splitToken s.rest).2 := by
        have hne : (splitToken s.rest).1 ≠ [] := htok
        rw [blankFields_eq_splitToken, if_neg hne]
        rfl
      cases hr : (interpretToken limit s.readToken.1).run s.readToken.2 with
      | error e s' => exact ⟨[], s.readToken.1, _, s, hfields, .nil s, rfl, hr⟩
      | ok u s₁ =>
        have hstep : TokenStep limit s s₁ := ⟨htok, hr⟩
        have hrest : s₁.rest = (splitToken s.rest).2 := hno s s₁ .refl hstep
        have hfuel₁ : (blankFields s₁.rest).length < fuel := by
          rw [hfields, List.length_cons, ← hrest] at hfuel
          omega
        exact (ih (hno.tail hstep) hfuel₁).cons hstep hrest

/-- **Reading the line.** Reading a token skips blanks and takes the longest run of non-blanks
after them, leaving the input just past it, and takes nothing only when nothing but blanks is
left, which are then spent. On a line whose tokens read no input, the outer interpreter hands
over the line's fields in order and stops at its end, or at the first token that faults. A
word that parses up to a delimiter skips at most one blank, takes the text up to the
delimiter, or to the end of the line, and leaves the input just past the delimiter. -/
theorem line_tokens_are_fields :
    (∀ m : Machine, ∃ skipped tok r, nextToken.run m = .ok tok { m with rest := r } ∧
      m.rest = skipped ++ tok ++ r ∧ (∀ b ∈ skipped, isBlank b = true) ∧
      (∀ b ∈ tok, isBlank b = false) ∧ (∀ b ∈ r.head?, isBlank b = true) ∧
      (tok = [] ↔ ∀ b ∈ m.rest, isBlank b = true) ∧ (tok = [] → r = [])) ∧
    (∀ limit s, ReadsNoInput limit s →
      InterpretsFields limit s ((interpret limit (s.rest.length + 1)).run s)) ∧
    (∀ (d : UInt8) (m : Machine), ∃ text r, (parseUntil d).run m = .ok text { m with rest := r } ∧
      ∃ s, ((s = m.rest ∧ ∀ b ∈ m.rest.head?, isBlank b = false) ∨
          ∃ b, isBlank b = true ∧ m.rest = b :: s) ∧
        d ∉ text ∧ (s = text ++ d :: r ∨ (text = s ∧ r = []))) := by
  refine ⟨fun m => ?_, fun limit s hno => ?_, fun d m => ?_⟩
  · refine ⟨m.rest.takeWhile isBlank, (splitToken m.rest).1, (splitToken m.rest).2, rfl,
      splitToken_decompose m.rest, fun _ => isBlank_of_mem_takeWhile,
      fun _ => not_isBlank_of_mem_splitToken, fun _ => isBlank_of_head_splitToken,
      splitToken_fst_eq_nil_iff m.rest, splitToken_snd_eq_nil⟩
  · exact interpret_fields hno (Nat.lt_succ_of_le (blankFields_length_le s.rest))
  · obtain ⟨hnot, hfound⟩ := splitUntil_spec d m.rest
    refine ⟨(splitUntil d m.rest).1, (splitUntil d m.rest).2, rfl, afterBlank m.rest, ?_, hnot,
      hfound.imp id fun h => ⟨h.1, h.2⟩⟩
    rcases afterBlank_cases m.rest with ⟨heq, hhead⟩ | hb
    · exact .inl ⟨heq, hhead⟩
    · exact .inr hb

/-- A machine with no words, the number base ten in cell 4 and a data stack of two cells from
offset 8, whose line holds two numbers between blanks, ` 1` tab `2 `. -/
def twoNumbersMachine : Machine :=
  { Machine.blank 16 {} with
    region := (Region.zeroed 16).writeAt 4 (bytesOfCell 10)
    data := Stack.empty .data 8 2
    rest := [0x20, 0x31, 0x09, 0x32, 0x20] }

/-- The two numbers of `twoNumbersMachine`'s line are pushed without reading input, so they are
handed over as the line's two fields. -/
theorem two_numbers_handed_in_order :
    ReadsNoInput twoNumbersMachine.stepLimit twoNumbersMachine ∧
      blankFields twoNumbersMachine.rest = [[0x31], [0x32]] ∧
      InterpretsFields twoNumbersMachine.stepLimit twoNumbersMachine
        ((interpret twoNumbersMachine.stepLimit (twoNumbersMachine.rest.length + 1)).run
          twoNumbersMachine) := by
  have h₁ : TokenStep twoNumbersMachine.stepLimit twoNumbersMachine
      { twoNumbersMachine with
        region := ((Region.zeroed 16).writeAt 4 (bytesOfCell 10)).writeAt 8 (bytesOfCell 1)
        data := (Stack.empty .data 8 2).raise, rest := [0x09, 0x32, 0x20], token := [0x31] } :=
    ⟨by decide, by with_unfolding_all rfl⟩
  have h₂ : TokenStep twoNumbersMachine.stepLimit
      { twoNumbersMachine with
        region := ((Region.zeroed 16).writeAt 4 (bytesOfCell 10)).writeAt 8 (bytesOfCell 1)
        data := (Stack.empty .data 8 2).raise, rest := [0x09, 0x32, 0x20], token := [0x31] }
      { twoNumbersMachine with
        region := (((Region.zeroed 16).writeAt 4 (bytesOfCell 10)).writeAt 8
          (bytesOfCell 1)).writeAt 12 (bytesOfCell 2)
        data := (Stack.empty .data 8 2).raise.raise, rest := [0x20], token := [0x32] } :=
    ⟨by decide, by with_unfolding_all rfl⟩
  have hno : ReadsNoInput twoNumbersMachine.stepLimit twoNumbersMachine :=
    .step h₁ (by decide) (.step h₂ (by decide) (.of_spent (by decide)))
  exact ⟨hno, by decide, line_tokens_are_fields.2.1 _ _ hno⟩

end ForthMachine
