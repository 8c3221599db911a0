import Mathlib
import ForthMachine.Proofs.StepBudget

/-!
# Operations that do not see where their line ends

The machine's operations read the unread part of the line only through the input words
(`nextToken`, `parseUntil`, `skipLine`); they never look at the line itself or at the trace,
and they read the count of dispatched tokens only to enforce a step budget. So an operation
behaves alike on a machine whose unread input runs on past its end and whose line, trace and
count are anything else. `Oblivious σ op` says so for a continuation `σ` of the input: both runs
end the same way, the second in the state of the first with its input run on by `σ`.

An operation that reads no input is oblivious to every continuation. A word that reads input
is oblivious to a continuation that starts with a blank, as long as what it reads lies within
its line (`Action.ParsesIn`): a name, or the text up to its delimiter. This carries through the
inner interpreter, a token and the rest of a line, as long as every word a run dispatches reads
within the line; the states where a run dispatches are those of `RunVisits`, `TokenVisits` and
`LineVisits`.
-/

set_option mvcgen.warning false

namespace ForthMachine

open ForthMachine.Text ForthMachine.Memory ForthMachine.Block

/-- The machine `x` on a longer line: its unread input runs on with `σ`, and its line, trace and
count of dispatched tokens are `l`, `t` and `n`. -/
def Machine.extend (x : Machine) (σ l : Bytes) (t : Array Bytes) (n : Nat) : Machine :=
  { x with rest := x.rest ++ σ, line := l, trace := t, steps := n }

/-- `y` is `x` on the longer line `l`, whose unread input runs on with `σ`. -/
def Machine.Extended (σ l : Bytes) (x y : Machine) : Prop := ∃ t n, y = x.extend σ l t n

/-- Two outcomes of an operation, the second on the longer line `l`: the same value or the
same error, in states related by `Machine.Extended σ l`. -/
def Vm.Extended {α : Type} (σ l : Bytes) :
    EStateM.Result MachineError Machine α → EStateM.Result MachineError Machine α → Prop
  | .ok a x, .ok b y => a = b ∧ x.Extended σ l y
  | .error e x, .error f y => e = f ∧ x.Extended σ l y
  | _, _ => False

/-- Run from `x`, the operation does not see that its line runs on with `σ`, nor the line,
the trace and the count of dispatched tokens; and it leaves the line as it was. -/
def ObliviousAt {α : Type} (σ : Bytes) (op : Vm α) (x : Machine) : Prop :=
  ∀ l t n, Vm.Extended σ l (op.run x) (op.run (x.extend σ l t n))

/-- From no state does the operation see that its line runs on with `σ`. -/
def Oblivious {α : Type} (σ : Bytes) (op : Vm α) : Prop := ∀ x, ObliviousAt σ op x

theorem Machine.setStack_extend (x : Machine) (σ l : Bytes) (t : Array Bytes) (n : Nat)
    (st : StackName) (s : Stack) :
    (x.extend σ l t n).setStack st s = (x.setStack st s).extend σ l t n := by
  cases st <;> rfl

/-! ## Building blocks -/

namespace Oblivious

variable {α β : Type} {σ : Bytes}

theorem ret (a : α) : Oblivious σ (Pure.pure a : Vm α) := fun _ _ t n => ⟨rfl, t, n, rfl⟩

theorem fail (e : MachineError) : Oblivious σ (MonadExcept.throw e : Vm α) :=
  fun _ _ t n => ⟨rfl, t, n, rfl⟩

/-- Whatever would follow an error is never run. -/
theorem fail_bind (e : MachineError) (k : α → Vm β) :
    Oblivious σ (MonadExcept.throw e >>= k) :=
  fun _ _ t n => ⟨rfl, t, n, rfl⟩

/-- Sequencing at one state: the first operation is oblivious there, and the second at every
state the first can leave. -/
theorem bindAt {x : Vm α} {k : α → Vm β} {s : Machine} (hx : ObliviousAt σ x s)
    (hk : ∀ a s', x.run s = .ok a s' → ObliviousAt σ (k a) s') : ObliviousAt σ (x >>= k) s := by
  intro l t n
  have h := hx l t n
  rw [EStateM.run_bind, EStateM.run_bind]
  cases hr : x.run s with
  | ok a s' =>
    cases hr' : x.run (s.extend σ l t n) with
    | ok b y =>
      rw [hr, hr'] at h
      obtain ⟨rfl, t', n', rfl⟩ := h
      exact hk a s' hr l t' n'
    | error => rw [hr, hr'] at h; exact h.elim
  | error e s' =>
    cases hr' : x.run (s.extend σ l t n) with
    | ok => rw [hr, hr'] at h; exact h.elim
    | error f y =>
      rw [hr, hr'] at h
      obtain ⟨rfl, t', n', rfl⟩ := h
      exact ⟨rfl, t', n', rfl⟩

theorem obliviousAt {op : Vm α} {x : Machine} (h : Oblivious σ op) : ObliviousAt σ op x := h x

theorem bind {x : Vm α} {k : α → Vm β} (hx : Oblivious σ x) (hk : ∀ a, Oblivious σ (k a)) :
    Oblivious σ (x >>= k) :=
  fun s => bindAt (hx s) fun a s' _ => hk a s'

/-- Reading the state at one state: what the continuation depends on is none of the line, the
trace, the count and the end of the input. -/
theorem readAt {k : Machine → Vm α} {x : Machine} (hk : ∀ l t n, k (x.extend σ l t n) = k x)
    (hb : ObliviousAt σ (k x) x) : ObliviousAt σ (get >>= k) x := by
  intro l t n
  show Vm.Extended σ l ((k x).run x) ((k (x.extend σ l t n)).run (x.extend σ l t n))
  rw [hk]
  exact hb l t n

theorem read {k : Machine → Vm α} (hk : ∀ x l t n, k (x.extend σ l t n) = k x)
    (hb : ∀ m, Oblivious σ (k m)) : Oblivious σ (get >>= k) :=
  fun x => readAt (hk x) (hb x x)

/-- Setting a state computed from the one read, alike on the longer line up to its line, trace
and count. -/
theorem reset {g : Machine → Machine} {k : Vm α}
    (hg : ∀ x l t n, ∃ t' n', g (x.extend σ l t n) = (g x).extend σ l t' n')
    (hk : Oblivious σ k) : Oblivious σ (get >>= fun m => set (g m) >>= fun _ => k) := by
  intro x l t n
  obtain ⟨t', n', hg'⟩ := hg x l t n
  show Vm.Extended σ l (k.run (g x)) (k.run (g (x.extend σ l t n)))
  rw [hg']
  exact hk (g x) l t' n'

/-- Changing the state, alike on the longer line. -/
theorem update {f : Machine → Machine}
    (hf : ∀ x l t n, f (x.extend σ l t n) = (f x).extend σ l t n) :
    Oblivious σ (modify f : Vm PUnit) :=
  fun x l t n => ⟨rfl, t, n, hf x l t n⟩

theorem region (r : Except AddrError α) : Oblivious σ (Vm.ofRegion r) := by
  cases r <;> exact fun _ _ t n => ⟨rfl, t, n, rfl⟩

theorem stack (r : Except StackError α) : Oblivious σ (Vm.ofStack r) := by
  cases r <;> exact fun _ _ t n => ⟨rfl, t, n, rfl⟩

theorem ite {c : Prop} [Decidable c] {a b : Vm α} (ha : Oblivious σ a) (hb : Oblivious σ b) :
    Oblivious σ (if c then a else b) := by
  split
  · exact ha
  · exact hb

theorem tryCatch {x : Vm α} {h : MachineError → Vm α} (hx : Oblivious σ x)
    (hh : ∀ e, Oblivious σ (h e)) : Oblivious σ (tryCatch x h) := by
  intro s l t n
  have hs : Vm.Extended σ l (x s) (x (s.extend σ l t n)) := hx s l t n
  show Vm.Extended σ l (EStateM.tryCatch x h s) (EStateM.tryCatch x h (s.extend σ l t n))
  unfold EStateM.tryCatch
  cases hr : x s <;> cases hr' : x (s.extend σ l t n) <;> rw [hr, hr'] at hs
  case ok.ok => exact hs
  case error.error e s' f y =>
    obtain ⟨rfl, t', n', rfl⟩ := hs
    exact hh e s' l t' n'
  all_goals exact hs.elim

theorem foldlM {f : β → α → Vm β} (hf : ∀ b a, Oblivious σ (f b a)) (l : List α) (b : β) :
    Oblivious σ (l.foldlM f b) := by
  induction l generalizing b with
  | nil => exact ret b
  | cons a l ih => exact (hf b a).bind ih

theorem forM {f : α → Vm PUnit} (hf : ∀ a, Oblivious σ (f a)) (l : List α) :
    Oblivious σ (l.forM f) := by
  induction l with
  | nil => exact ret _
  | cons a l ih => exact (hf a).bind fun _ => ih

theorem forIn {f : α → β → Vm (ForInStep β)} (hf : ∀ a b, Oblivious σ (f a b)) (l : List α)
    (b : β) : Oblivious σ (forIn l b f) := by
  induction l generalizing b with
  | nil => exact ret b
  | cons a l ih =>
    rw [List.forIn_cons]
    refine (hf a b).bind fun r => ?_
    cases r with
    | done b' => exact ret b'
    | yield b' => exact ih b'

end Oblivious

/-! ## Storage and stacks -/

section Storage

variable (σ : Bytes)

theorem trace_oblivious (mark : String) (message : Unit → Bytes) :
    Oblivious σ (trace mark message) := by
  intro x l t n
  by_cases h : x.settings.tracing
  · exact ⟨rfl, t.push (Bytes.ofString (mark ++ " ") ++ message ()), n,
      by simp [h, Machine.extend]⟩
  · exact ⟨rfl, t, n, by simp [h, Machine.extend]⟩

theorem emitBytes_oblivious (p : Bytes) : Oblivious σ (emitBytes p) := by
  intro x l t n
  simp only [emitBytes, EStateM.run_bind, EStateM.run_get, EStateM.run_set, Machine.extend]
  split <;> exact ⟨rfl, t, n, rfl⟩

theorem loadCell_oblivious (a : UInt32) : Oblivious σ (loadCell a) :=
  Oblivious.read (fun _ _ _ _ => rfl) fun _ => Oblivious.region _

theorem changeRegion_oblivious (f : Region → Region) : Oblivious σ (changeRegion f) :=
  fun _ _ t n => ⟨rfl, t, n, rfl⟩

theorem storCell_oblivious (a v : UInt32) : Oblivious σ (storCell a v) :=
  Oblivious.read (fun _ _ _ _ => rfl) fun _ =>
    (Oblivious.region _).bind fun _ => changeRegion_oblivious σ _

theorem storByte_oblivious (a : UInt32) (b : UInt8) : Oblivious σ (storByte a b) :=
  Oblivious.read (fun _ _ _ _ => rfl) fun _ =>
    (Oblivious.region _).bind fun _ => changeRegion_oblivious σ _

theorem copyIn_oblivious (a : UInt32) (bs : Bytes) : Oblivious σ (copyIn a bs) :=
  Oblivious.read (fun _ _ _ _ => rfl) fun _ =>
    (Oblivious.region _).bind fun _ => changeRegion_oblivious σ _

theorem slice_oblivious (a : UInt32) (k : Nat) : Oblivious σ (slice a k) :=
  Oblivious.read (fun _ _ _ _ => rfl) fun _ => Oblivious.region _

theorem setStack_oblivious (st : StackName) (s : Stack) :
    Oblivious σ (modify fun m => m.setStack st s : Vm PUnit) :=
  Oblivious.update fun x l t n => Machine.setStack_extend x σ l t n st s

theorem push_oblivious (st : StackName) (v : UInt32) : Oblivious σ (push st v) :=
  Oblivious.read (fun _ _ _ _ => rfl) fun _ =>
    Oblivious.ite (Oblivious.fail_bind _ _)
      ((storCell_oblivious σ _ v).bind fun _ => setStack_oblivious σ st _)

theorem peek_oblivious (st : StackName) (k : UInt32) : Oblivious σ (peek st k) :=
  Oblivious.read (fun _ _ _ _ => rfl) fun _ =>
    (Oblivious.stack _).bind fun _ => loadCell_oblivious σ _

theorem dropCells_oblivious (st : StackName) (k : UInt32) : Oblivious σ (dropCells st k) :=
  Oblivious.read (fun _ _ _ _ => rfl) fun _ =>
    (Oblivious.stack _).bind fun _ => setStack_oblivious σ st _

theorem pop_oblivious (st : StackName) : Oblivious σ (pop st) :=
  (peek_oblivious σ st 0).bind fun v => (dropCells_oblivious σ st 1).bind fun _ => Oblivious.ret v

theorem poke_oblivious (st : StackName) (k v : UInt32) : Oblivious σ (poke st k v) :=
  Oblivious.read (fun _ _ _ _ => rfl) fun _ =>
    (Oblivious.stack _).bind fun _ => storCell_oblivious σ _ v

theorem popN_oblivious (k : Nat) : Oblivious σ (popN k) :=
  Oblivious.read (fun _ _ _ _ => rfl) fun _ => Oblivious.ite (Oblivious.fail_bind _ _)
    (Oblivious.foldlM (fun _ _ => (pop_oblivious σ _).bind fun _ => Oblivious.ret _) _ _)

theorem pushAll_oblivious (vs : List UInt32) : Oblivious σ (pushAll vs) :=
  Oblivious.forM (fun v => push_oblivious σ .data v) vs

theorem radix_oblivious : Oblivious σ radix :=
  (loadCell_oblivious σ _).bind fun _ => Oblivious.ite (Oblivious.fail_bind _ _) (Oblivious.ret _)

theorem checkData_oblivious (a : UInt32) (k : Nat) (acc : Access) :
    Oblivious σ (checkData a k acc) :=
  Oblivious.read (fun _ _ _ _ => rfl) fun _ => Oblivious.ite (Oblivious.fail _) (Oblivious.ret _)

theorem loadData_oblivious (a : UInt32) : Oblivious σ (loadData a) :=
  (checkData_oblivious σ a 4 .load).bind fun _ => loadCell_oblivious σ a

theorem storData_oblivious (a v : UInt32) : Oblivious σ (storData a v) :=
  (checkData_oblivious σ a 4 .stor).bind fun _ => storCell_oblivious σ a v

theorem dataBytes_oblivious (a : UInt32) (k : Nat) : Oblivious σ (dataBytes a k) :=
  (checkData_oblivious σ a k .slice).bind fun _ => slice_oblivious σ a k

end Storage

/-! ## The dictionary and compiling -/

section Compiling

variable (σ : Bytes)

theorem wordInfo_oblivious (h : UInt32) : Oblivious σ (wordInfo h) :=
  Oblivious.read (fun _ _ _ _ => rfl) fun _ => Oblivious.region _

theorem allocate_oblivious (k : UInt32) : Oblivious σ (allocate k) :=
  Oblivious.read (fun _ _ _ _ => rfl) fun _ => Oblivious.ite (Oblivious.fail_bind _ _)
    ((Oblivious.region _).bind fun _ => (changeRegion_oblivious σ _).bind fun _ =>
      (Oblivious.update fun _ _ _ _ => rfl).bind fun _ => Oblivious.ret _)

theorem define_oblivious (name : Bytes) (flags : UInt8) : Oblivious σ (define name flags) :=
  Oblivious.read (fun _ _ _ _ => rfl) fun _ =>
    (Oblivious.tryCatch (allocate_oblivious σ _) fun _ => Oblivious.fail _).bind fun _ =>
      (copyIn_oblivious σ _ _).bind fun _ =>
        Oblivious.read (fun _ _ _ _ => rfl) fun _ =>
          (storCell_oblivious σ _ _).bind fun _ => (storCell_oblivious σ _ _).bind fun _ =>
            (Oblivious.update fun _ _ _ _ => rfl).bind fun _ =>
              (trace_oblivious σ _ _).bind fun _ => Oblivious.ret _

theorem setFlags_oblivious (h : UInt32) (a b : UInt8) : Oblivious σ (setFlags h a b) :=
  (loadCell_oblivious σ _).bind fun _ => storCell_oblivious σ _ _

theorem compileCell_oblivious (v : UInt32) : Oblivious σ (compileCell v) :=
  (allocate_oblivious σ 4).bind fun _ => (storCell_oblivious σ _ v).bind fun _ => Oblivious.ret _

theorem compileToken_oblivious (k : TokenKind) (a : UInt32) : Oblivious σ (compileToken k a) :=
  (compileCell_oblivious σ _).bind fun _ => Oblivious.read (fun _ _ _ _ => rfl) fun _ =>
    (trace_oblivious σ _ _).bind fun _ => Oblivious.ret _

theorem compileOperand_oblivious (k : TokenKind) (v : UInt32) :
    Oblivious σ (compileOperand k v) :=
  (compileCell_oblivious σ _).bind fun _ => (compileCell_oblivious σ v).bind fun _ =>
    Oblivious.read (fun _ _ _ _ => rfl) fun _ =>
      (trace_oblivious σ _ _).bind fun _ => Oblivious.ret _

theorem patch_oblivious (site target : UInt32) : Oblivious σ (patch site target) :=
  storCell_oblivious σ site target

theorem pushFixup_oblivious (k : Fixup) (site : UInt32) : Oblivious σ (pushFixup k site) :=
  (push_oblivious σ _ _).bind fun _ => push_oblivious σ _ _

theorem popFixup_oblivious (want : List Fixup) : Oblivious σ (popFixup want) :=
  Oblivious.read (fun _ _ _ _ => rfl) fun _ =>
    Oblivious.ite ((pop_oblivious σ _).bind fun _ =>
        (dropCells_oblivious σ _ _).bind fun _ => Oblivious.ret _)
      (Oblivious.fail _)

theorem compileWord_oblivious (h : UInt32) : Oblivious σ (compileWord h) :=
  (wordInfo_oblivious σ h).bind fun _ => Oblivious.read (fun _ _ _ _ => rfl) fun _ =>
    Oblivious.ite (Oblivious.fail_bind _ _)
      (Oblivious.ite ((loadCell_oblivious σ _).bind fun _ => (compileCell_oblivious σ _).bind fun _ =>
          Oblivious.read (fun _ _ _ _ => rfl) fun _ => trace_oblivious σ _ _)
        ((compileToken_oblivious σ _ _).bind fun _ => Oblivious.ret _))

theorem endDefinition_oblivious : Oblivious σ endDefinition :=
  Oblivious.read (fun _ _ _ _ => rfl) fun _ => Oblivious.ite (Oblivious.fail_bind _ _) <|
    Oblivious.ite (Oblivious.fail_bind _ _) <|
      (compileToken_oblivious σ _ _).bind fun _ => (setFlags_oblivious σ _ _ _).bind fun _ =>
        Oblivious.read (fun _ _ _ _ => rfl) fun _ => (trace_oblivious σ _ _).bind fun _ =>
          Oblivious.update fun _ _ _ _ => rfl

theorem makeImmediate_oblivious : Oblivious σ makeImmediate :=
  Oblivious.read (fun _ _ _ _ => rfl) fun _ => setFlags_oblivious σ _ _ _

theorem compileRecurse_oblivious : Oblivious σ compileRecurse :=
  Oblivious.read (fun _ _ _ _ => rfl) fun _ => Oblivious.ite (Oblivious.fail_bind _ _)
    ((compileToken_oblivious σ _ _).bind fun _ => Oblivious.ret _)

theorem compileLiteral_oblivious : Oblivious σ compileLiteral :=
  (pop_oblivious σ _).bind fun _ => (compileOperand_oblivious σ _ _).bind fun _ => Oblivious.ret _

theorem compileExit_oblivious : Oblivious σ compileExit :=
  (compileToken_oblivious σ _ _).bind fun _ => Oblivious.ret _

theorem compileIf_oblivious : Oblivious σ compileIf :=
  (compileOperand_oblivious σ _ _).bind fun _ => pushFixup_oblivious σ _ _

theorem compileElse_oblivious : Oblivious σ compileElse :=
  (popFixup_oblivious σ _).bind fun _ => (compileOperand_oblivious σ _ _).bind fun _ =>
    Oblivious.read (fun _ _ _ _ => rfl) fun _ =>
      (patch_oblivious σ _ _).bind fun _ => pushFixup_oblivious σ _ _

theorem compileThen_oblivious : Oblivious σ compileThen :=
  (popFixup_oblivious σ _).bind fun _ => Oblivious.read (fun _ _ _ _ => rfl) fun _ =>
    patch_oblivious σ _ _

theorem compileBegin_oblivious : Oblivious σ compileBegin :=
  Oblivious.read (fun _ _ _ _ => rfl) fun _ => pushFixup_oblivious σ _ _

theorem compileUntil_oblivious : Oblivious σ compileUntil :=
  (popFixup_oblivious σ _).bind fun _ => (compileOperand_oblivious σ _ _).bind fun _ =>
    Oblivious.ret _

theorem compileAgain_oblivious : Oblivious σ compileAgain :=
  (popFixup_oblivious σ _).bind fun _ => (compileOperand_oblivious σ _ _).bind fun _ =>
    Oblivious.ret _

theorem compileWhile_oblivious : Oblivious σ compileWhile :=
  Oblivious.read (fun _ _ _ _ => rfl) fun _ => Oblivious.ite (Oblivious.fail_bind _ _)
    ((compileOperand_oblivious σ _ _).bind fun _ => pushFixup_oblivious σ _ _)

theorem compileRepeat_oblivious : Oblivious σ compileRepeat :=
  (popFixup_oblivious σ _).bind fun _ => (popFixup_oblivious σ _).bind fun _ =>
    (compileOperand_oblivious σ _ _).bind fun _ => Oblivious.read (fun _ _ _ _ => rfl) fun _ =>
      patch_oblivious σ _ _

theorem compileDo_oblivious : Oblivious σ compileDo :=
  (compileOperand_oblivious σ _ _).bind fun _ => pushFixup_oblivious σ _ _

theorem closeLoop_oblivious (k : TokenKind) : Oblivious σ (closeLoop k) :=
  (popFixup_oblivious σ _).bind fun _ => (compileOperand_oblivious σ _ _).bind fun _ =>
    Oblivious.read (fun _ _ _ _ => rfl) fun _ => patch_oblivious σ _ _

theorem pushFromReturn_oblivious (k : UInt32) : Oblivious σ (pushFromReturn k) :=
  (peek_oblivious σ _ _).bind fun _ => push_oblivious σ _ _

theorem leaveLoop_oblivious : Oblivious σ leaveLoop :=
  (peek_oblivious σ _ _).bind fun _ => (Oblivious.update fun _ _ _ _ => rfl).bind fun _ =>
    dropCells_oblivious σ _ _

theorem compileString_oblivious (text : Bytes) :
    Oblivious σ (printString.compileString text) :=
  (compileOperand_oblivious σ _ _).bind fun _ => (allocate_oblivious σ _).bind fun _ =>
    (copyIn_oblivious σ _ _).bind fun _ => Oblivious.read (fun _ _ _ _ => rfl) fun _ =>
      (patch_oblivious σ _ _).bind fun _ => (compileOperand_oblivious σ _ _).bind fun _ =>
        (compileOperand_oblivious σ _ _).bind fun _ => Oblivious.ret _

theorem allotSpace_oblivious : Oblivious σ allotSpace := by
  refine (pop_oblivious σ _).bind fun v => Oblivious.ite ?_
    ((allocate_oblivious σ v).bind fun _ => Oblivious.ret _)
  intro x l t n
  simp only [EStateM.run_bind, EStateM.run_get, Machine.extend]
  split <;> exact ⟨rfl, t, n, rfl⟩

theorem compileByte_oblivious : Oblivious σ compileByte :=
  (pop_oblivious σ _).bind fun _ => (allocate_oblivious σ _).bind fun _ =>
    storByte_oblivious σ _ _

end Compiling

/-! ## Library, block and host words -/

set_option linter.unusedSimpArgs false in
/-- A listing reads the dictionary and the primitive table, not the line. -/
theorem Machine.showBody_extend (x : Machine) (σ l : Bytes) (t : Array Bytes) (n : Nat)
    (pos reach : UInt32) : (x.extend σ l t n).showBody pos reach = x.showBody pos reach := by
  have hhere : (x.extend σ l t n).here = x.here := rfl
  have hregion : (x.extend σ l t n).region = x.region := rfl
  have hstring : ∀ p, (x.extend σ l t n).showString p = x.showString p := fun _ => rfl
  have htoken : ∀ p, (x.extend σ l t n).showToken p = x.showToken p := fun _ => rfl
  fun_induction x.showBody pos reach <;> rw [Machine.showBody]
  all_goals simp +zetaDelta [hhere, hregion, hstring, htoken, *]
  -- the call after a branch: simp rewrote the reach it passes, the hypothesis still matches
  assumption

theorem Machine.showWord_extend (x : Machine) (σ l : Bytes) (t : Array Bytes) (n : Nat)
    (h : UInt32) : (x.extend σ l t n).showWord h = x.showWord h := by
  unfold Machine.showWord
  rw [Machine.showBody_extend]
  rfl

section Words

variable (σ : Bytes)

theorem shuffleCells_oblivious (arity : Nat) (perm : List Nat) :
    Oblivious σ (shuffleCells arity perm) :=
  (popN_oblivious σ arity).bind fun _ => pushAll_oblivious σ _

theorem divideCells_oblivious (r : DivisionResult) : Oblivious σ (divideCells r) := by
  refine (popN_oblivious σ 2).bind fun _ => Oblivious.ite (Oblivious.fail_bind _ _) ?_
  cases r
  · exact push_oblivious σ _ _
  · exact push_oblivious σ _ _
  · exact pushAll_oblivious σ _

theorem formatCell_oblivious (v : UInt32) (u : Bool) : Oblivious σ (formatCell v u) :=
  (radix_oblivious σ).bind fun _ => Oblivious.ite (Oblivious.fail_bind _ _) (Oblivious.ret _)

theorem callWord_oblivious (h : UInt32) : Oblivious σ (callWord h) :=
  Oblivious.read (fun _ _ _ _ => rfl) fun _ => (push_oblivious σ _ _).bind fun _ =>
    Oblivious.read (fun _ _ _ _ => rfl) fun _ => (push_oblivious σ _ _).bind fun _ =>
      Oblivious.update fun _ _ _ _ => rfl

theorem writeSpacesGo_oblivious (k fuel : Nat) : Oblivious σ (writeSpaces.go k fuel) := by
  induction fuel generalizing k with
  | zero => exact Oblivious.ret _
  | succ fuel ih =>
    exact Oblivious.ite (Oblivious.ret _) ((emitBytes_oblivious σ _).bind fun _ => ih _)

theorem writeSpaces_oblivious (k : Int) : Oblivious σ (writeSpaces k) :=
  writeSpacesGo_oblivious σ _ _

theorem withCache_oblivious {α : Type} (op : CacheM Disk α) : Oblivious σ (withCache op) := by
  refine Oblivious.read (fun _ _ _ _ => rfl) fun m => ?_
  split
  · exact Oblivious.fail _
  · dsimp only
    split
    · exact (Oblivious.update fun _ _ _ _ => rfl).bind fun _ =>
        (changeRegion_oblivious σ _).bind fun _ => Oblivious.ret _
    · exact (Oblivious.update fun _ _ _ _ => rfl).bind fun _ =>
        (changeRegion_oblivious σ _).bind fun _ => Oblivious.fail _

theorem popBlockIndex_oblivious : Oblivious σ popBlockIndex :=
  (pop_oblivious σ _).bind fun _ => Oblivious.ite (Oblivious.fail_bind _ _) (Oblivious.ret _)

theorem blockAddr_oblivious (f : UInt16 → CacheM Disk UInt32) : Oblivious σ (blockAddr f) :=
  Oblivious.read (fun _ _ _ _ => rfl) fun _ => Oblivious.ite (Oblivious.fail_bind _ _)
    ((popBlockIndex_oblivious σ).bind fun _ => (withCache_oblivious σ _).bind fun _ =>
      (trace_oblivious σ _ _).bind fun _ => push_oblivious σ _ _)

theorem blockWord_oblivious (w : BlockWord) : Oblivious σ w.run := by
  cases w with
  | block => exact blockAddr_oblivious σ _
  | buffer => exact blockAddr_oblivious σ _
  | emptyBuffers => exact Oblivious.update fun _ _ _ _ => rfl
  | update => exact Oblivious.update fun _ _ _ _ => rfl
  | flush =>
    exact Oblivious.read (fun _ _ _ _ => rfl) fun _ =>
      Oblivious.ite (withCache_oblivious σ _) (Oblivious.ret _)

theorem hostAction_oblivious (a : HostAction) : Oblivious σ a.run := by
  cases a with
  | pushValue v => exact push_oblivious σ _ v
  | panic v => exact Oblivious.fail _
  | exit => exact Oblivious.fail _
  | fail msg => exact Oblivious.fail _
  | print text => exact emitBytes_oblivious σ _
  | add3 =>
    exact (pop_oblivious σ _).bind fun _ => (pop_oblivious σ _).bind fun _ =>
      (pop_oblivious σ _).bind fun _ => push_oblivious σ _ _
  | peekAt k =>
    exact Oblivious.ite (Oblivious.fail_bind _ _)
      ((peek_oblivious σ _ _).bind fun _ => push_oblivious σ _ _)
  | load => exact (pop_oblivious σ _).bind fun _ => (loadData_oblivious σ _).bind fun _ =>
      push_oblivious σ _ _
  | store => exact (pop_oblivious σ _).bind fun _ => (pop_oblivious σ _).bind fun _ =>
      storData_oblivious σ _ _

end Words

/-! ## The inner interpreter, apart from the primitives -/

section Inner

variable (σ : Bytes)

theorem fetchCode_oblivious (pos : UInt32) : Oblivious σ (fetchCode pos) :=
  Oblivious.read (fun _ _ _ _ => rfl) fun _ =>
    Oblivious.ite (Oblivious.fail_bind _ _) (loadCell_oblivious σ pos)

theorem nextOperand_oblivious : Oblivious σ nextOperand :=
  Oblivious.read (fun _ _ _ _ => rfl) fun _ => (fetchCode_oblivious σ _).bind fun _ =>
    (Oblivious.update fun _ _ _ _ => rfl).bind fun _ => Oblivious.ret _

theorem enterLoop_oblivious : Oblivious σ enterLoop :=
  (nextOperand_oblivious σ).bind fun _ => (pop_oblivious σ _).bind fun _ =>
    (pop_oblivious σ _).bind fun _ => (push_oblivious σ _ _).bind fun _ =>
      (push_oblivious σ _ _).bind fun _ => push_oblivious σ _ _

theorem stepLoop_oblivious (step : UInt32) : Oblivious σ (stepLoop step) :=
  (nextOperand_oblivious σ).bind fun _ => (peek_oblivious σ _ _).bind fun _ =>
    (peek_oblivious σ _ _).bind fun _ =>
      Oblivious.ite (dropCells_oblivious σ _ _)
        ((Oblivious.update fun _ _ _ _ => rfl).bind fun _ => poke_oblivious σ _ _ _)

/-- Without a step budget, fetching a token does not look at the count it advances. -/
theorem fetchToken_oblivious (k : Nat) : Oblivious σ (fetchToken (.fuel k)) := by
  simp only [fetchToken, StepLimit.spent, Bool.false_eq_true, ↓reduceIte]
  -- past the count, the fetch reads the instruction pointer, the dictionary and the stacks
  refine Oblivious.reset (fun x l t n => ⟨t, n + 1, rfl⟩) ?_
  exact Oblivious.read (fun _ _ _ _ => rfl) fun d => (fetchCode_oblivious σ d.ip).bind fun _ =>
    (Oblivious.update fun _ _ _ _ => rfl).bind fun _ => Oblivious.read (fun _ _ _ _ => rfl) fun _ =>
      (trace_oblivious σ _ _).bind fun _ => Oblivious.ret _

theorem parseLiteral_oblivious (tok : Bytes) : Oblivious σ (parseLiteral tok) := by
  refine (radix_oblivious σ).bind fun b => ?_
  split
  · exact Oblivious.ret _
  · split
    · exact Oblivious.ret _
    · exact Oblivious.fail _

end Inner

/-! ## Reading input -/

/-- A continuation of the input that starts with a blank, if it is not empty: no token of the
line runs on into it. -/
def Separated (σ : Bytes) : Prop := ∀ c ∈ σ.head?, isBlank c = true

/-- The text a word that reads up to a delimiter searches: its input after the one blank that
ends the word. -/
def afterBlank : Bytes → Bytes
  | b :: r => if isBlank b then r else b :: r
  | [] => []

theorem separated_nil : Separated [] := fun _ h => by cases h

theorem splitUntil_eq_afterBlank (d : UInt8) (input : Bytes) :
    splitUntil d input = match (afterBlank input).idxOf? d with
      | some i => ((afterBlank input).take i, (afterBlank input).drop (i + 1))
      | none => (afterBlank input, []) := by
  cases input <;> rfl

/-- A token read from input that holds one ends within it: a continuation that starts with a
blank is left unread. -/
theorem splitToken_extend {r σ : Bytes} (hσ : Separated σ) (hr : (splitToken r).1 ≠ []) :
    splitToken (r ++ σ) = ((splitToken r).1, (splitToken r).2 ++ σ) := by
  have htake : σ.takeWhile (fun b => !isBlank b) = [] := by
    cases σ with
    | nil => rfl
    | cons c σ => exact List.takeWhile_cons_of_neg (by simp [hσ c rfl])
  have hdrop : σ.dropWhile (fun b => !isBlank b) = σ := by
    cases σ with
    | nil => rfl
    | cons c σ => exact List.dropWhile_cons_of_neg (by simp [hσ c rfl])
  have hne : r.dropWhile isBlank ≠ [] := fun h => hr (by simp [splitToken, h])
  have hblanks : (r ++ σ).dropWhile isBlank = r.dropWhile isBlank ++ σ := by
    rw [List.dropWhile_append, if_neg (by simpa using hne)]
  simp only [splitToken, hblanks, List.takeWhile_append, List.dropWhile_append, htake, hdrop]
  refine Prod.ext ?_ ?_
  · dsimp only
    split_ifs with h
    · rw [List.append_nil]
      exact ((List.takeWhile_prefix _).eq_of_length h).symm
    · rfl
  · dsimp only
    split_ifs with h
    · rw [List.isEmpty_iff.1 h, List.nil_append]
    · rfl

/-- Text read up to a delimiter that the input holds ends within it. -/
theorem splitUntil_extend {d : UInt8} {r : Bytes} (σ : Bytes) (hd : d ∈ afterBlank r) :
    splitUntil d (r ++ σ) = ((splitUntil d r).1, (splitUntil d r).2 ++ σ) := by
  have hab : afterBlank (r ++ σ) = afterBlank r ++ σ := by
    cases r with
    | nil => simp [afterBlank] at hd
    | cons b r => by_cases hb : isBlank b <;> simp [afterBlank, hb]
  obtain ⟨i, hi⟩ := Option.isSome_iff_exists.1 (List.isSome_idxOf?.2 hd)
  have hlt : i < (afterBlank r).length := (List.idxOf?_eq_some_iff.1 hi).1
  have hi' : (afterBlank r ++ σ).idxOf? d = some i := by
    simp only [List.idxOf?, List.findIdx?_append] at hi ⊢
    rw [hi]
    rfl
  rw [splitUntil_eq_afterBlank, splitUntil_eq_afterBlank, hab, hi', hi]
  simp [List.take_append_of_le_length hlt.le, List.drop_append_of_le_length hlt]

section Input

variable {σ : Bytes}

theorem nextToken_obliviousAt (hσ : Separated σ) {x : Machine}
    (h : σ = [] ∨ (splitToken x.rest).1 ≠ []) : ObliviousAt σ nextToken x := by
  have hsplit : splitToken (x.rest ++ σ) = ((splitToken x.rest).1, (splitToken x.rest).2 ++ σ) := by
    rcases h with rfl | h
    · simp
    · exact splitToken_extend hσ h
  intro l t n
  simp only [nextToken, EStateM.run_modifyGet, Machine.extend, hsplit]
  exact ⟨rfl, t, n, rfl⟩

theorem parseName_obliviousAt (hσ : Separated σ) {x : Machine}
    (h : σ = [] ∨ (splitToken x.rest).1 ≠ []) : ObliviousAt σ parseName x := by
  unfold parseName
  refine Oblivious.bindAt (nextToken_obliviousAt hσ h) fun _ _ _ => Oblivious.obliviousAt ?_
  exact Oblivious.ite (Oblivious.read (fun _ _ _ _ => rfl) fun _ =>
    (Oblivious.fail _).bind fun _ => Oblivious.ret _) (Oblivious.ret _)

theorem parseUntil_obliviousAt (d : UInt8) {x : Machine} (h : σ = [] ∨ d ∈ afterBlank x.rest) :
    ObliviousAt σ (parseUntil d) x := by
  have hsplit : splitUntil d (x.rest ++ σ) = ((splitUntil d x.rest).1, (splitUntil d x.rest).2 ++ σ) := by
    rcases h with rfl | h
    · simp
    · exact splitUntil_extend σ h
  intro l t n
  simp only [parseUntil, EStateM.run_modifyGet, Machine.extend, hsplit]
  exact ⟨rfl, t, n, rfl⟩

/-- Dropping the rest of the line sees where it ends: it is oblivious only to an empty
continuation. -/
theorem skipLine_oblivious : Oblivious [] skipLine :=
  Oblivious.update fun _ _ _ _ => rfl

end Input

/-! ## What a word reads -/

/-- What a compiler word reads of the input `r` lies within `r`: a name for the defining words
and the character words, the text up to the closing delimiter for comments and strings. `\`
takes the rest of the line, wherever it ends. -/
def CompilerWord.ParsesIn (r : Bytes) : CompilerWord → Prop
  | .colon | .char | .bracketChar | .constant | .variable | .create => (splitToken r).1 ≠ []
  | .comment => 0x29 ∈ afterBlank r
  | .dotQuote | .sQuote => 0x22 ∈ afterBlank r
  | .lineComment => False
  | _ => True

/-- What a library word reads of the input `r` lies within `r`: a name for `see` and `'`. -/
def LibraryWord.ParsesIn (r : Bytes) : LibraryWord → Prop
  | .see | .tick => (splitToken r).1 ≠ []
  | _ => True

/-- What an action reads of the input `r` lies within `r`; block and host words read none. -/
def Action.ParsesIn (r : Bytes) : Action → Prop
  | .compiler w => w.ParsesIn r
  | .library w => w.ParsesIn r
  | _ => True

/-- The action of the primitive whose token the inner interpreter dispatches next at `c`. -/
def Machine.actionAt (c : Machine) : Option Action :=
  match c.region.loadCell c.ip with
  | .ok code =>
    if Token.kind? code = some .prim then (c.prims[(Token.arg code).toNat]?).bind Primitive.action
    else none
  | .error _ => none

/-- The word the inner interpreter dispatches next at `c` reads within the unread input. -/
def Machine.ReadsWithin (c : Machine) : Prop := ∀ a, c.actionAt = some a → a.ParsesIn c.rest

section Reading

variable {σ : Bytes}

open Std.Do in
/-- Popping a cell reads no input. -/
theorem pop_rest (st : StackName) {x s' : Machine} {v : UInt32} (h : (pop st).run x = .ok v s') :
    s'.rest = x.rest := by
  have hpop : ⦃fun s => ⌜s = x⌝⦄ pop st
      ⦃post⟨fun _ s => ⌜s.rest = x.rest⌝, fun _ _ => ⌜True⌝⟩⦄ := by
    mvcgen [pop, peek, dropCells, loadCell, Vm.ofStack, Vm.ofRegion]
    all_goals simp_all +zetaDelta
  have hr := Vm.run_of_triple hpop
  rw [h] at hr
  exact hr

theorem printString_obliviousAt {x : Machine} (h : σ = [] ∨ 0x22 ∈ afterBlank x.rest) :
    ObliviousAt σ printString x := by
  unfold printString
  refine Oblivious.bindAt (parseUntil_obliviousAt 0x22 h) fun _ _ _ => Oblivious.obliviousAt ?_
  exact Oblivious.read (fun _ _ _ _ => rfl) fun _ =>
    Oblivious.ite (emitBytes_oblivious σ _) ((compileString_oblivious σ _).bind fun _ =>
      (compileToken_oblivious σ _ _).bind fun _ => Oblivious.ret _)

theorem stringLiteral_obliviousAt {x : Machine} (h : σ = [] ∨ 0x22 ∈ afterBlank x.rest) :
    ObliviousAt σ stringLiteral x := by
  unfold stringLiteral
  refine Oblivious.bindAt (parseUntil_obliviousAt 0x22 h) fun _ _ _ => Oblivious.obliviousAt ?_
  exact Oblivious.read (fun _ _ _ _ => rfl) fun _ =>
    Oblivious.ite (compileString_oblivious σ _) (Oblivious.read (fun _ _ _ _ => rfl) fun _ =>
      Oblivious.ite (Oblivious.fail_bind _ _) ((copyIn_oblivious σ _ _).bind fun _ =>
        (push_oblivious σ _ _).bind fun _ => push_oblivious σ _ _))

theorem parseChar_obliviousAt (hσ : Separated σ) {x : Machine}
    (h : σ = [] ∨ (splitToken x.rest).1 ≠ []) : ObliviousAt σ parseChar x := by
  unfold parseChar
  exact Oblivious.bindAt (parseName_obliviousAt hσ h) fun _ _ _ => Oblivious.ret _ _

theorem defineData_obliviousAt (hσ : Separated σ) (c : Bool) (v size : UInt32) {x : Machine}
    (h : σ = [] ∨ (splitToken x.rest).1 ≠ []) : ObliviousAt σ (defineData c v size) x := by
  unfold defineData
  refine Oblivious.bindAt (parseName_obliviousAt hσ h) fun _ _ _ => Oblivious.obliviousAt ?_
  exact (define_oblivious σ _ _).bind fun _ => (compileOperand_oblivious σ _ _).bind fun _ =>
    (compileToken_oblivious σ _ _).bind fun _ =>
      Oblivious.ite ((allocate_oblivious σ _).bind fun _ => Oblivious.ret _) (Oblivious.ret _)

theorem beginDefinition_obliviousAt (hσ : Separated σ) {x : Machine}
    (h : σ = [] ∨ (splitToken x.rest).1 ≠ []) : ObliviousAt σ beginDefinition x := by
  unfold beginDefinition
  refine Oblivious.readAt (fun _ _ _ => rfl) ?_
  split
  · exact Oblivious.fail_bind _ _ x
  · refine Oblivious.bindAt (parseName_obliviousAt hσ h) fun _ _ _ => Oblivious.obliviousAt ?_
    exact Oblivious.read (fun _ _ _ _ => rfl) fun _ => Oblivious.read (fun _ _ _ _ => rfl) fun _ =>
      (define_oblivious σ _ _).bind fun _ => Oblivious.update fun _ _ _ _ => rfl

theorem compilerWord_obliviousAt (hσ : Separated σ) (w : CompilerWord) {x : Machine}
    (h : σ = [] ∨ w.ParsesIn x.rest) : ObliviousAt σ w.run x := by
  cases w with
  | typeString =>
    refine Oblivious.obliviousAt ((popN_oblivious σ 2).bind fun vals => ?_)
    split
    · exact Oblivious.ite (Oblivious.ret _)
        ((dataBytes_oblivious σ _ _).bind fun _ => emitBytes_oblivious σ _)
    · exact Oblivious.ret _
  | colon => exact beginDefinition_obliviousAt hσ h
  | semicolon => exact endDefinition_oblivious σ x
  | immediate => exact makeImmediate_oblivious σ x
  | recurse => exact compileRecurse_oblivious σ x
  | literal => exact compileLiteral_oblivious σ x
  | exit => exact compileExit_oblivious σ x
  | ifWord => exact compileIf_oblivious σ x
  | elseWord => exact compileElse_oblivious σ x
  | thenWord => exact compileThen_oblivious σ x
  | begin => exact compileBegin_oblivious σ x
  | untilWord => exact compileUntil_oblivious σ x
  | again => exact compileAgain_oblivious σ x
  | whileWord => exact compileWhile_oblivious σ x
  | repeatWord => exact compileRepeat_oblivious σ x
  | doWord => exact compileDo_oblivious σ x
  | loopWord => exact closeLoop_oblivious σ _ x
  | plusLoop => exact closeLoop_oblivious σ _ x
  | loopIndex => exact pushFromReturn_oblivious σ _ x
  | outerIndex => exact pushFromReturn_oblivious σ _ x
  | leave => exact leaveLoop_oblivious σ x
  | unloop => exact dropCells_oblivious σ _ _ x
  | comment => exact Oblivious.bindAt (parseUntil_obliviousAt _ h) fun _ _ _ => Oblivious.ret _ _
  | lineComment =>
    -- `\` reads to the end of the line, so the line must end where the word does
    obtain rfl : σ = [] := h.resolve_right id
    exact skipLine_oblivious x
  | dotQuote => exact printString_obliviousAt h
  | sQuote => exact stringLiteral_obliviousAt h
  | char => exact Oblivious.bindAt (parseChar_obliviousAt hσ h) fun _ _ _ => push_oblivious σ _ _ _
  | bracketChar =>
    exact Oblivious.bindAt (parseChar_obliviousAt hσ h) fun _ _ _ =>
      ((compileOperand_oblivious σ _ _).bind fun _ => Oblivious.ret _) _
  | constant =>
    -- the popped value leaves the input as it was, so the name is read where `h` says
    exact Oblivious.bindAt (pop_oblivious σ _ x) fun v _ hs =>
      defineData_obliviousAt hσ true v 0 (pop_rest _ hs ▸ h)
  | «variable» => exact defineData_obliviousAt hσ false 0 4 h
  | create => exact defineData_obliviousAt hσ false 0 0 h
  | allot => exact allotSpace_oblivious σ x
  | comma =>
    exact ((pop_oblivious σ _).bind fun _ => (compileCell_oblivious σ _).bind fun _ =>
      Oblivious.ret _) x
  | cComma => exact compileByte_oblivious σ x
  | here => exact (Oblivious.read (fun _ _ _ _ => rfl) fun _ => push_oblivious σ _ _) x

theorem libraryWord_obliviousAt (hσ : Separated σ) (w : LibraryWord) {x : Machine}
    (h : σ = [] ∨ w.ParsesIn x.rest) : ObliviousAt σ w.run x := by
  cases w with
  | shuffle arity perm => exact shuffleCells_oblivious σ arity perm x
  | drop k => exact dropCells_oblivious σ _ _ x
  | qdup =>
    exact ((peek_oblivious σ _ _).bind fun _ =>
      Oblivious.ite (push_oblivious σ _ _) (Oblivious.ret _)) x
  | pick =>
    exact ((pop_oblivious σ _).bind fun _ => Oblivious.ite (Oblivious.fail_bind _ _)
      ((peek_oblivious σ _ _).bind fun _ => push_oblivious σ _ _)) x
  | depth => exact (Oblivious.read (fun _ _ _ _ => rfl) fun _ => push_oblivious σ _ _) x
  | toR => exact ((pop_oblivious σ _).bind fun _ => push_oblivious σ _ _) x
  | fromR => exact ((pop_oblivious σ _).bind fun _ => push_oblivious σ _ _) x
  | fetchR => exact ((peek_oblivious σ _ _).bind fun _ => push_oblivious σ _ _) x
  | binary op =>
    exact ((pop_oblivious σ _).bind fun _ => (pop_oblivious σ _).bind fun _ =>
      push_oblivious σ _ _) x
  | unary op => exact ((pop_oblivious σ _).bind fun _ => push_oblivious σ _ _) x
  | divide r => exact divideCells_oblivious σ r x
  | pushConst v => exact push_oblivious σ _ v x
  | fetch =>
    exact ((pop_oblivious σ _).bind fun _ => (loadData_oblivious σ _).bind fun _ =>
      push_oblivious σ _ _) x
  | store => exact ((popN_oblivious σ 2).bind fun _ => storData_oblivious σ _ _) x
  | cFetch =>
    exact ((pop_oblivious σ _).bind fun _ => (dataBytes_oblivious σ _ _).bind fun _ =>
      push_oblivious σ _ _) x
  | cStore =>
    exact ((popN_oblivious σ 2).bind fun _ => (dataBytes_oblivious σ _ _).bind fun _ =>
      storByte_oblivious σ _ _) x
  | plusStore =>
    exact ((popN_oblivious σ 2).bind fun _ => (loadData_oblivious σ _).bind fun _ =>
      storData_oblivious σ _ _) x
  | setRadix r => exact storData_oblivious σ _ _ x
  | emit => exact ((pop_oblivious σ _).bind fun _ => emitBytes_oblivious σ _) x
  | dot =>
    exact ((pop_oblivious σ _).bind fun _ => (formatCell_oblivious σ _ _).bind fun _ =>
      emitBytes_oblivious σ _) x
  | uDot =>
    exact ((pop_oblivious σ _).bind fun _ => (formatCell_oblivious σ _ _).bind fun _ =>
      emitBytes_oblivious σ _) x
  | dotS =>
    exact (Oblivious.read (fun _ _ _ _ => rfl) fun _ =>
      (Oblivious.forIn (fun _ _ => (formatCell_oblivious σ _ _).bind fun _ => Oblivious.ret _)
        _ _).bind fun _ => emitBytes_oblivious σ _) x
  | cr => exact emitBytes_oblivious σ _ x
  | space => exact emitBytes_oblivious σ _ x
  | spaces => exact ((pop_oblivious σ _).bind fun _ => writeSpaces_oblivious σ _) x
  | type => exact compilerWord_obliviousAt hσ .typeString (.inr trivial)
  | words => exact (Oblivious.read (fun _ _ _ _ => rfl) fun _ => emitBytes_oblivious σ _) x
  | see =>
    refine Oblivious.bindAt (parseName_obliviousAt hσ h) fun _ _ _ => Oblivious.obliviousAt ?_
    refine Oblivious.read (fun _ _ _ _ => rfl) fun _ => ?_
    split
    · exact Oblivious.fail _
    · exact Oblivious.read (fun x l t n => by rw [Machine.showWord_extend]) fun _ =>
        emitBytes_oblivious σ _
  | tick =>
    refine Oblivious.bindAt (parseName_obliviousAt hσ h) fun _ _ _ => Oblivious.obliviousAt ?_
    refine Oblivious.read (fun _ _ _ _ => rfl) fun _ => ?_
    split
    · exact Oblivious.fail _
    · exact push_oblivious σ _ _
  | execute =>
    exact ((pop_oblivious σ _).bind fun _ => Oblivious.read (fun _ _ _ _ => rfl) fun _ =>
      Oblivious.ite (Oblivious.fail_bind _ _) ((wordInfo_oblivious σ _).bind fun _ =>
        Oblivious.read (fun _ _ _ _ => rfl) fun _ =>
          Oblivious.ite (Oblivious.fail_bind _ _) (callWord_oblivious σ _))) x

theorem action_obliviousAt (hσ : Separated σ) (a : Action) {x : Machine}
    (h : σ = [] ∨ a.ParsesIn x.rest) : ObliviousAt σ a.run x := by
  cases a with
  | compiler w => exact compilerWord_obliviousAt hσ w h
  | library w => exact libraryWord_obliviousAt hσ w h
  | blocks w => exact blockWord_oblivious σ w x
  | host a => exact hostAction_oblivious σ a x

end Reading

/-! ## Runs of the interpreters -/

section Runs

variable {σ : Bytes}

theorem callPrim_obliviousAt (hσ : Separated σ) (idx : UInt32) {x : Machine}
    (h : ∀ a, (x.prims[idx.toNat]?).bind Primitive.action = some a → σ = [] ∨ a.ParsesIn x.rest) :
    ObliviousAt σ (callPrim idx) x := by
  unfold callPrim
  refine Oblivious.readAt (fun _ _ _ => rfl) ?_
  split
  · rename_i a hp
    exact action_obliviousAt hσ a (h a (by simp [hp]))
  · exact Oblivious.fail _ x
  · exact Oblivious.fail _ x

theorem dispatch_obliviousAt (hσ : Separated σ) (base pos code : UInt32) {x : Machine}
    (h : ∀ a, Token.kind? code = some .prim →
      (x.prims[(Token.arg code).toNat]?).bind Primitive.action = some a → σ = [] ∨ a.ParsesIn x.rest) :
    ObliviousAt σ (dispatch base pos code) x := by
  unfold dispatch
  split
  · exact Oblivious.obliviousAt <| Oblivious.read (fun _ _ _ _ => rfl) fun _ =>
      Oblivious.ite (Oblivious.ret _) ((pop_oblivious σ _).bind fun _ =>
        (pop_oblivious σ _).bind fun _ => (Oblivious.update fun _ _ _ _ => rfl).bind fun _ =>
          Oblivious.ret _)
  · rename_i hk
    exact Oblivious.bindAt (callPrim_obliviousAt hσ _ fun a ha => h a hk ha) fun _ _ _ =>
      Oblivious.ret _ _
  · exact Oblivious.obliviousAt <| (callWord_oblivious σ _).bind fun _ => Oblivious.ret _
  · exact Oblivious.obliviousAt <| (nextOperand_oblivious σ).bind fun _ =>
      (push_oblivious σ _ _).bind fun _ => Oblivious.ret _
  · exact Oblivious.obliviousAt <| (nextOperand_oblivious σ).bind fun _ =>
      (Oblivious.update fun _ _ _ _ => rfl).bind fun _ => Oblivious.ret _
  · exact Oblivious.obliviousAt <| (nextOperand_oblivious σ).bind fun _ =>
      (pop_oblivious σ _).bind fun _ =>
        Oblivious.ite ((Oblivious.update fun _ _ _ _ => rfl).bind fun _ => Oblivious.ret _)
          (Oblivious.ret _)
  · exact Oblivious.obliviousAt <| (enterLoop_oblivious σ).bind fun _ => Oblivious.ret _
  · exact Oblivious.obliviousAt <| (stepLoop_oblivious σ _).bind fun _ => Oblivious.ret _
  · exact Oblivious.obliviousAt <| (pop_oblivious σ _).bind fun _ =>
      (stepLoop_oblivious σ _).bind fun _ => Oblivious.ret _
  · exact Oblivious.fail _ x

/-- A step of the inner interpreter without a step budget, at a state whose next word reads
within the line. -/
theorem step_obliviousAt (hσ : Separated σ) (k : Nat) (base : UInt32) {x : Machine}
    (h : σ = [] ∨ x.ReadsWithin) : ObliviousAt σ (step (.fuel k) base) x := by
  unfold step
  refine Oblivious.bindAt (fetchToken_oblivious σ k x) fun ⟨pos, code⟩ s' hs => ?_
  -- the token fetched is the one at the instruction pointer, and the input is as it was
  have hf := Vm.run_of_triple (fetchToken_spec (.fuel k) x)
  rw [hs] at hf
  obtain ⟨-, hcode, hs'⟩ := hf
  have hrest : s'.rest = x.rest := by rw [hs']
  have hprims : s'.prims = x.prims := by rw [hs']
  refine dispatch_obliviousAt hσ base pos code fun a hkind ha => h.imp_right fun hr => ?_
  rw [hrest]
  refine hr a ?_
  simp only [Machine.actionAt, hcode, hkind, ↓reduceIte]
  rwa [← hprims]

/-- A run of the inner interpreter without a step budget, every word of which reads within the
line. -/
theorem runSteps_obliviousAt (hσ : Separated σ) (k : Nat) (base : UInt32) (fuel : Nat)
    {x : Machine} (h : ∀ c, RunVisits (.fuel k) base fuel x c → σ = [] ∨ c.ReadsWithin) :
    ObliviousAt σ (runSteps (.fuel k) base fuel) x := by
  induction fuel generalizing x with
  | zero => exact Oblivious.fail _ x
  | succ fuel ih =>
    refine Oblivious.bindAt (step_obliviousAt hσ k base (h x (.start x))) fun done s' hs => ?_
    cases done with
    | true => exact Oblivious.ret _ s'
    | false => exact ih fun c hc => h c (.next hs hc)

theorem runWord_obliviousAt (hσ : Separated σ) (k : Nat) (h : UInt32) {x : Machine}
    (hc : ∀ c, RunVisits (.fuel k) x.ret.depth k { x with cur := h, ip := h + headerSize } c →
      σ = [] ∨ c.ReadsWithin) :
    ObliviousAt σ (runWord (.fuel k) h) x := by
  intro l t n
  exact runSteps_obliviousAt hσ k _ k hc l t n

/-- Interpreting a token without a step budget, every word its run dispatches reading within
the line. -/
theorem interpretToken_obliviousAt (hσ : Separated σ) (k : Nat) (tok : Bytes) {x : Machine}
    (h : ∀ c, TokenVisits (.fuel k) tok x c → σ = [] ∨ c.ReadsWithin) :
    ObliviousAt σ (interpretToken (.fuel k) tok) x := by
  unfold interpretToken
  refine Oblivious.readAt (fun _ _ _ => rfl) ?_
  split
  · rename_i w hl
    refine Oblivious.bindAt (wordInfo_oblivious σ w x) fun ⟨flags, len⟩ s' hs => ?_
    -- reading the header leaves the state alone
    rw [wordInfo_run] at hs
    split at hs
    · rename_i hw
      cases hs
      dsimp only
      split
      · exact compileWord_oblivious σ w x
      · split
        · exact Oblivious.fail _ x
        · rename_i hcomp hco
          have hruns : x.runsWordFor tok w :=
            ⟨hl, flags, len, hw, by simpa using hcomp, by simpa using hco⟩
          exact Oblivious.bindAt (runWord_obliviousAt hσ k w fun c hc => h c ⟨w, hruns, hc⟩)
            fun _ _ _ => Oblivious.update (fun _ _ _ _ => rfl) _
    · cases hs
  · exact ((parseLiteral_oblivious σ tok).bind fun _ => Oblivious.read (fun _ _ _ _ => rfl) fun _ =>
      Oblivious.ite ((compileOperand_oblivious σ _ _).bind fun _ => Oblivious.ret _)
        (push_oblivious σ _ _)) x

theorem nextToken_oblivious_nil : Oblivious [] nextToken :=
  fun _ => nextToken_obliviousAt separated_nil (.inl rfl)

theorem interpretToken_oblivious_nil (k : Nat) (tok : Bytes) :
    Oblivious [] (interpretToken (.fuel k) tok) :=
  fun _ => interpretToken_obliviousAt separated_nil k tok fun _ _ => .inl rfl

/-- On a line that does not run on, interpreting the rest of it sees neither the line nor the
trace nor the count. -/
theorem interpret_oblivious (k fuel : Nat) : Oblivious [] (interpret (.fuel k) fuel) := by
  induction fuel with
  | zero => exact Oblivious.ret _
  | succ fuel ih =>
    exact nextToken_oblivious_nil.bind fun _ =>
      Oblivious.ite (Oblivious.ret _) ((Oblivious.update fun _ _ _ _ => rfl).bind fun _ =>
        (interpretToken_oblivious_nil k _).bind fun _ => ih)

end Runs

end ForthMachine
