import Mathlib
import ForthMachine.Proofs.ScriptVerdict
import ForthMachine.Proofs.HostCalls
import ForthMachine.Proofs.Division
import ForthMachine.Proofs.CacheRecency
import ForthMachine.Proofs.LoopExit
import ForthMachine.Proofs.LineSplit

/-!
# What a machine keeps of its past without reading it

A machine carries a few things from its past that its operations never read: the cursors
saved at the `:` of a definition that is no longer open, the last line with its unread input
and token (a new line replaces them), the trace, and the output that already reached its
channels. A `Leftover` holds such values and `Machine.recast` puts them into a machine; the
earlier output goes in front of what each channel holds.

`Unaware b op` says that the operation does not see them: run from a recast machine it ends as
it does from the machine itself, with the same value or error, in the state it reaches recast
again. With `b` set the line is shared, for the operations that read their input.
-/

namespace ForthMachine

open ForthMachine.Text ForthMachine.Memory ForthMachine.Block

/-- The channels of a sink with earlier output in front of what each one holds. -/
def Sink.after (s : Sink) (written : List ByteArray) : Sink :=
  ⟨List.zipWith (fun c w => { c with data := w ++ c.data }) s.channels written⟩

/-- What a machine may keep of its past that its operations never read. -/
structure Leftover where
  /-- `here` and `latest` saved by the `:` of a definition no longer open. -/
  openHere : UInt32
  openLatest : UInt32
  /-- The last line, its unread input and its last token. -/
  line : Bytes
  rest : Bytes
  token : Bytes
  trace : Array Bytes
  /-- What reached each output channel before. -/
  written : List ByteArray

/-- The machine `z` with the leftovers `c`. -/
def Machine.recast (z : Machine) (c : Leftover) : Machine :=
  { z with openHere := c.openHere, openLatest := c.openLatest, line := c.line, rest := c.rest,
           token := c.token, trace := c.trace, sink := z.sink.after c.written }

/-- What leftovers must agree with in a machine: whether a definition is open and its saved
cursors, the number of output channels, and the line being read. -/
def Machine.past (m : Machine) : (UInt32 × UInt32 × UInt32) × Nat × Bytes × Bytes × Bytes :=
  ((m.openWord, m.openHere, m.openLatest), m.sink.channels.length, m.line, m.rest, m.token)

/-- Leftovers that a machine cannot tell from its own: the saved cursors are its own while a
definition is open, there is earlier output for each channel, and within a line (`inLine`)
the line, its unread input and its token are its own. -/
structure Leftover.Fits (inLine : Bool) (z : Machine) (c : Leftover) : Prop where
  opened : z.openWord ≠ 0 → c.openHere = z.openHere ∧ c.openLatest = z.openLatest
  written : c.written.length = z.sink.channels.length
  input : inLine = true → c.line = z.line ∧ c.rest = z.rest ∧ c.token = z.token

/-- Two outcomes of an operation, the first from a recast machine: the same value or the same
error, the first state the second with leftovers that fit it, the earlier output still `w`. -/
def Vm.Recast {α : Type} (b : Bool) (w : List ByteArray) :
    EStateM.Result MachineError Machine α → EStateM.Result MachineError Machine α → Prop
  | .ok a y, .ok a' z => a = a' ∧ ∃ c, c.Fits b z ∧ c.written = w ∧ y = z.recast c
  | .error e y, .error e' z => e = e' ∧ ∃ c, c.Fits b z ∧ c.written = w ∧ y = z.recast c
  | _, _ => False

/-- The operation does not see a machine's leftovers, and leaves its earlier output in front. -/
def Unaware {α : Type} (b : Bool) (op : Vm α) : Prop :=
  ∀ z c, c.Fits b z → Vm.Recast b c.written (op.run (z.recast c)) (op.run z)

/-! ## Earlier output -/

/-- Offering bytes to a channel appends to what it holds, whatever came before. -/
theorem Channel.accept_after (c : Channel) (w p : ByteArray) :
    ({ c with data := w ++ c.data } : Channel).accept p =
      ({ (c.accept p).1 with data := w ++ (c.accept p).1.data }, (c.accept p).2) := by
  obtain ⟨k, d⟩ := c
  cases k with
  | primary => simp [Channel.accept, ByteArray.append_assoc]
  | tee t => cases t <;> simp [Channel.accept, ByteArray.append_assoc]

theorem writeAll_after (p : ByteArray) (cs : List Channel) (ws : List ByteArray)
    (h : ws.length = cs.length) :
    writeAll p (List.zipWith (fun c w => { c with data := w ++ c.data }) cs ws) =
      (List.zipWith (fun c w => { c with data := w ++ c.data }) (writeAll p cs).1 ws,
        (writeAll p cs).2) := by
  induction cs generalizing ws with
  | nil => simp [writeAll]
  | cons c cs ih =>
    obtain ⟨w, ws, rfl⟩ := List.exists_cons_of_length_eq_add_one h
    have hws : ws.length = cs.length := by simpa using h
    simp only [List.zipWith_cons_cons, writeAll, Channel.accept_after]
    generalize c.accept p = r
    obtain ⟨c', n, e⟩ := r
    cases e with
    | some e => rfl
    | none => by_cases hn : n = p.size <;> simp [hn, ih ws hws]

theorem writeAll_length (p : ByteArray) (cs : List Channel) :
    (writeAll p cs).1.length = cs.length := by
  simpa using congrArg List.length (writeAll_kinds p cs)

/-- A write to channels with earlier output fails as it would without it, and adds the same
bytes after it. -/
theorem Sink.write_after (s : Sink) (w : List ByteArray) (h : w.length = s.channels.length)
    (p : ByteArray) : (s.after w).write p = ((s.write p).1.after w, (s.write p).2) := by
  obtain ⟨cs⟩ := s
  unfold Sink.after Sink.write
  match cs, w, h with
  | [], [], _ => rfl
  | [c], [w₀], _ => simp [Channel.accept_after]
  | c₁ :: c₂ :: cs, w₁ :: w₂ :: ws, h =>
    have hall := writeAll_after p (c₁ :: c₂ :: cs) (w₁ :: w₂ :: ws) h
    simp only [List.zipWith_cons_cons] at hall ⊢
    rw [hall]

theorem Sink.length_write (s : Sink) (p : ByteArray) :
    (s.write p).1.channels.length = s.channels.length := by
  simpa [Sink.kinds] using congrArg List.length (Sink.kinds_write s p)

/-- A flush reads only the kinds of the channels. -/
theorem Sink.flush_after (s : Sink) (w : List ByteArray) (h : w.length = s.channels.length) :
    (s.after w).flush = s.flush := by
  obtain ⟨cs⟩ := s
  simp only [Sink.after, Sink.flush]
  congr 1
  induction cs generalizing w with
  | nil => cases w <;> rfl
  | cons c cs ih =>
    obtain ⟨w₀, ws, rfl⟩ := List.exists_cons_of_length_eq_add_one h
    simp only [List.zipWith_cons_cons, List.filterMap_cons]
    rw [ih ws (by simpa using h)]
    rfl

/-! ## Building blocks -/

namespace Leftover.Fits

variable {b : Bool} {z z' : Machine} {c : Leftover}

/-- Leftovers fit every machine that agrees on what they must agree with. -/
theorem of_past (h : c.Fits b z) (hp : z'.past = z.past) : c.Fits b z' := by
  simp only [Machine.past, Prod.mk.injEq] at hp
  obtain ⟨⟨hw, hh, hl⟩, hn, hline, hrest, htok⟩ := hp
  refine ⟨fun h0 => ?_, hn ▸ h.written, fun hb => ?_⟩
  · rw [hh, hl]
    exact h.opened (hw ▸ h0)
  · rw [hline, hrest, htok]
    exact h.input hb

theorem with_trace (h : c.Fits b z) (t : Array Bytes) : { c with trace := t }.Fits b z :=
  ⟨h.opened, h.written, h.input⟩

/-- Once no definition is open, the saved cursors may be anything. -/
theorem of_closed (h : c.Fits b z) (hw : z'.openWord = 0) (hp : z'.past.2 = z.past.2) :
    c.Fits b z' := by
  simp only [Machine.past, Prod.mk.injEq] at hp
  obtain ⟨hn, hline, hrest, htok⟩ := hp
  refine ⟨fun h0 => absurd hw h0, hn ▸ h.written, fun hb => ?_⟩
  rw [hline, hrest, htok]
  exact h.input hb

/-- Within a line, a recast machine reads the line, its unread input and its token as its own. -/
theorem recast_line (h : c.Fits true z) : (z.recast c).line = z.line := (h.input rfl).1

theorem recast_rest (h : c.Fits true z) : (z.recast c).rest = z.rest := (h.input rfl).2.1

theorem recast_token (h : c.Fits true z) : (z.recast c).token = z.token := (h.input rfl).2.2

/-- Leftovers that fit within a line fit between lines. -/
theorem outside (h : c.Fits true z) : c.Fits b z := ⟨h.opened, h.written, fun _ => h.input rfl⟩

end Leftover.Fits

namespace Unaware

variable {α β : Type} {b : Bool}

theorem ret (a : α) : Unaware b (Pure.pure a : Vm α) := fun _ c hc => ⟨rfl, c, hc, rfl, rfl⟩

theorem fail (e : MachineError) : Unaware b (MonadExcept.throw e : Vm α) :=
  fun _ c hc => ⟨rfl, c, hc, rfl, rfl⟩

/-- Whatever would follow an error is never run. -/
theorem fail_bind (e : MachineError) (k : α → Vm β) : Unaware b (MonadExcept.throw e >>= k) :=
  fun _ c hc => ⟨rfl, c, hc, rfl, rfl⟩

theorem bind {x : Vm α} {k : α → Vm β} (hx : Unaware b x) (hk : ∀ a, Unaware b (k a)) :
    Unaware b (x >>= k) := by
  intro z c hc
  have h := hx z c hc
  rw [EStateM.run_bind, EStateM.run_bind]
  cases hr : x.run z with
  | ok a z' =>
    cases hr' : x.run (z.recast c) with
    | ok a' y =>
      rw [hr, hr'] at h
      obtain ⟨rfl, c', hc', hw, rfl⟩ := h
      rw [← hw]
      exact hk a' z' c' hc'
    | error => rw [hr, hr'] at h; exact h.elim
  | error e z' =>
    cases hr' : x.run (z.recast c) with
    | ok => rw [hr, hr'] at h; exact h.elim
    | error f y =>
      rw [hr, hr'] at h
      obtain ⟨rfl, c', hc', hw, rfl⟩ := h
      exact ⟨rfl, c', hc', hw, rfl⟩

/-- Reading the state: the continuation depends on no leftover that fits. -/
theorem read {k : Machine → Vm α} (hk : ∀ z c, c.Fits b z → k (z.recast c) = k z)
    (hb : ∀ m, Unaware b (k m)) : Unaware b (get >>= k) := by
  intro z c hc
  show Vm.Recast b c.written ((k (z.recast c)).run (z.recast c)) ((k z).run z)
  rw [hk z c hc]
  exact hb z z c hc

/-- Changing the state, with leftovers that fit the new state. -/
theorem update {f : Machine → Machine}
    (hf : ∀ z c, c.Fits b z →
      ∃ c', c'.Fits b (f z) ∧ c'.written = c.written ∧ f (z.recast c) = (f z).recast c') :
    Unaware b (modify f : Vm PUnit) := by
  intro z c hc
  obtain ⟨c', hc', hw, h⟩ := hf z c hc
  exact ⟨rfl, c', hc', hw, h⟩

/-- Changing the state in a way that sets no leftover and keeps what leftovers agree with. -/
theorem keep {f : Machine → Machine} (hf : ∀ z c, f (z.recast c) = (f z).recast c)
    (hp : ∀ z, (f z).past = z.past) : Unaware b (modify f : Vm PUnit) :=
  update fun z c hc => ⟨c, hc.of_past (hp z), rfl, hf z c⟩

/-- Closing the open definition, after which the saved cursors are never read. -/
theorem close {f : Machine → Machine} (hf : ∀ z c, f (z.recast c) = (f z).recast c)
    (hw : ∀ z, (f z).openWord = 0) (hp : ∀ z, (f z).past.2 = z.past.2) :
    Unaware b (modify f : Vm PUnit) :=
  update fun z c hc => ⟨c, hc.of_closed (hw z) (hp z), rfl, hf z c⟩

/-- Setting a state computed from the one read, with leftovers that fit the new state, and going
on with what does not depend on leftovers. -/
theorem reset {g : Machine → Machine} {k : Machine → Vm α}
    (hg : ∀ z c, c.Fits b z →
      ∃ c', c'.Fits b (g z) ∧ c'.written = c.written ∧ g (z.recast c) = (g z).recast c')
    (hk : ∀ z c, c.Fits b z → k (z.recast c) = k z) (hb : ∀ m, Unaware b (k m)) :
    Unaware b (get >>= fun m => set (g m) >>= fun _ => k m) := by
  intro z c hc
  obtain ⟨c', hc', hw, hg'⟩ := hg z c hc
  show Vm.Recast b c.written ((k (z.recast c)).run (g (z.recast c))) ((k z).run (g z))
  rw [hg', hk z c hc, ← hw]
  exact hb z (g z) c' hc'

/-- Reading the state and branching on something no leftover changes. -/
theorem readIte {p : Machine → Prop} [DecidablePred p] {x y : Machine → Vm α}
    (hp : ∀ z c, p (z.recast c) ↔ p z) (hx : Unaware b (get >>= x))
    (hy : Unaware b (get >>= y)) : Unaware b (get >>= fun m => if p m then x m else y m) := by
  intro z c hc
  show Vm.Recast b c.written
    ((if p (z.recast c) then x (z.recast c) else y (z.recast c)).run (z.recast c))
    ((if p z then x z else y z).run z)
  by_cases h : p z
  · rw [if_pos ((hp z c).2 h), if_pos h]
    exact hx z c hc
  · rw [if_neg (mt (hp z c).1 h), if_neg h]
    exact hy z c hc

theorem region (r : Except AddrError α) : Unaware b (Vm.ofRegion r) := by
  cases r <;> exact fun _ c hc => ⟨rfl, c, hc, rfl, rfl⟩

theorem stack (r : Except StackError α) : Unaware b (Vm.ofStack r) := by
  cases r <;> exact fun _ c hc => ⟨rfl, c, hc, rfl, rfl⟩

theorem ite {p : Prop} [Decidable p] {x y : Vm α} (hx : Unaware b x) (hy : Unaware b y) :
    Unaware b (if p then x else y) := by
  split
  · exact hx
  · exact hy

theorem tryCatch {x : Vm α} {h : MachineError → Vm α} (hx : Unaware b x)
    (hh : ∀ e, Unaware b (h e)) : Unaware b (tryCatch x h) := by
  intro z c hc
  have hs : Vm.Recast b c.written (x (z.recast c)) (x z) := hx z c hc
  show Vm.Recast b c.written (EStateM.tryCatch x h (z.recast c)) (EStateM.tryCatch x h z)
  unfold EStateM.tryCatch
  cases hr : x (z.recast c) <;> cases hr' : x z <;> rw [hr, hr'] at hs
  case ok.ok => exact hs
  case error.error e y f z' =>
    obtain ⟨rfl, c', hc', hw, rfl⟩ := hs
    rw [← hw]
    exact hh e z' c' hc'
  all_goals exact hs.elim

theorem foldlM {f : β → α → Vm β} (hf : ∀ x a, Unaware b (f x a)) (l : List α) (x : β) :
    Unaware b (l.foldlM f x) := by
  induction l generalizing x with
  | nil => exact ret x
  | cons a l ih => exact (hf x a).bind ih

theorem forM {f : α → Vm PUnit} (hf : ∀ a, Unaware b (f a)) (l : List α) :
    Unaware b (l.forM f) := by
  induction l with
  | nil => exact ret _
  | cons a l ih => exact (hf a).bind fun _ => ih

theorem forIn {f : α → β → Vm (ForInStep β)} (hf : ∀ a x, Unaware b (f a x)) (l : List α)
    (x : β) : Unaware b (forIn l x f) := by
  induction l generalizing x with
  | nil => exact ret x
  | cons a l ih =>
    rw [List.forIn_cons]
    refine (hf a x).bind fun r => ?_
    cases r with
    | done y => exact ret y
    | yield y => exact ih y

end Unaware

/-! ## Storage and stacks -/

theorem Machine.setStack_recast (z : Machine) (c : Leftover) (st : StackName) (s : Stack) :
    (z.recast c).setStack st s = (z.setStack st s).recast c := by
  cases st <;> rfl

section Storage

variable {b : Bool}

theorem trace_unaware (mark : String) (message : Unit → Bytes) :
    Unaware b (trace mark message) := by
  refine Unaware.update fun z c hc => ?_
  by_cases h : z.settings.tracing
  · refine ⟨{ c with trace := c.trace.push (Bytes.ofString (mark ++ " ") ++ message ()) },
      (hc.with_trace _).of_past (by simp [Machine.past, h]), rfl, ?_⟩
    simp [Machine.recast, h]
  · exact ⟨c, hc.of_past (by simp [Machine.past, h]), rfl, by simp [Machine.recast, h]⟩

theorem emitBytes_unaware (p : Bytes) : Unaware b (emitBytes p) := by
  intro z c hc
  have hw := Sink.write_after z.sink c.written hc.written ⟨p.toArray⟩
  have hfit : c.Fits b { z with sink := (z.sink.write ⟨p.toArray⟩).1 } :=
    hc.of_past (by simp [Machine.past, Sink.length_write])
  simp only [emitBytes, EStateM.run_bind, EStateM.run_get, EStateM.run_set]
  rw [show (z.recast c).sink = z.sink.after c.written from rfl, hw]
  cases (z.sink.write ⟨p.toArray⟩).2 with
  | some e => exact ⟨rfl, c, hfit, rfl, rfl⟩
  | none => exact ⟨rfl, c, hfit, rfl, rfl⟩

theorem loadCell_unaware (a : UInt32) : Unaware b (loadCell a) :=
  Unaware.read (fun _ _ _ => rfl) fun _ => Unaware.region _

theorem changeRegion_unaware (f : Region → Region) : Unaware b (changeRegion f) :=
  fun _ c hc => ⟨rfl, c, hc.of_past rfl, rfl, rfl⟩

theorem storCell_unaware (a v : UInt32) : Unaware b (storCell a v) :=
  Unaware.read (fun _ _ _ => rfl) fun _ =>
    (Unaware.region _).bind fun _ => changeRegion_unaware _

theorem storByte_unaware (a : UInt32) (x : UInt8) : Unaware b (storByte a x) :=
  Unaware.read (fun _ _ _ => rfl) fun _ =>
    (Unaware.region _).bind fun _ => changeRegion_unaware _

theorem copyIn_unaware (a : UInt32) (bs : Bytes) : Unaware b (copyIn a bs) :=
  Unaware.read (fun _ _ _ => rfl) fun _ =>
    (Unaware.region _).bind fun _ => changeRegion_unaware _

theorem slice_unaware (a : UInt32) (k : Nat) : Unaware b (slice a k) :=
  Unaware.read (fun _ _ _ => rfl) fun _ => Unaware.region _

theorem setStack_unaware (st : StackName) (s : Stack) :
    Unaware b (modify fun m => m.setStack st s : Vm PUnit) :=
  Unaware.keep (fun z c => Machine.setStack_recast z c st s) fun z => by cases st <;> rfl

theorem push_unaware (st : StackName) (v : UInt32) : Unaware b (push st v) :=
  Unaware.read (fun _ _ _ => rfl) fun _ =>
    Unaware.ite (Unaware.fail_bind _ _)
      ((storCell_unaware _ v).bind fun _ => setStack_unaware st _)

theorem peek_unaware (st : StackName) (k : UInt32) : Unaware b (peek st k) :=
  Unaware.read (fun _ _ _ => rfl) fun _ =>
    (Unaware.stack _).bind fun _ => loadCell_unaware _

theorem dropCells_unaware (st : StackName) (k : UInt32) : Unaware b (dropCells st k) :=
  Unaware.read (fun _ _ _ => rfl) fun _ =>
    (Unaware.stack _).bind fun _ => setStack_unaware st _

theorem pop_unaware (st : StackName) : Unaware b (pop st) :=
  (peek_unaware st 0).bind fun v => (dropCells_unaware st 1).bind fun _ => Unaware.ret v

theorem poke_unaware (st : StackName) (k v : UInt32) : Unaware b (poke st k v) :=
  Unaware.read (fun _ _ _ => rfl) fun _ =>
    (Unaware.stack _).bind fun _ => storCell_unaware _ v

theorem popN_unaware (k : Nat) : Unaware b (popN k) :=
  Unaware.read (fun _ _ _ => rfl) fun _ => Unaware.ite (Unaware.fail_bind _ _)
    (Unaware.foldlM (fun _ _ => (pop_unaware _).bind fun _ => Unaware.ret _) _ _)

theorem pushAll_unaware (vs : List UInt32) : Unaware b (pushAll vs) :=
  Unaware.forM (fun v => push_unaware .data v) vs

theorem radix_unaware : Unaware b radix :=
  (loadCell_unaware _).bind fun _ => Unaware.ite (Unaware.fail_bind _ _) (Unaware.ret _)

theorem checkData_unaware (a : UInt32) (k : Nat) (acc : Access) :
    Unaware b (checkData a k acc) :=
  Unaware.read (fun _ _ _ => rfl) fun _ => Unaware.ite (Unaware.fail _) (Unaware.ret _)

theorem loadData_unaware (a : UInt32) : Unaware b (loadData a) :=
  (checkData_unaware a 4 .load).bind fun _ => loadCell_unaware a

theorem storData_unaware (a v : UInt32) : Unaware b (storData a v) :=
  (checkData_unaware a 4 .stor).bind fun _ => storCell_unaware a v

theorem dataBytes_unaware (a : UInt32) (k : Nat) : Unaware b (dataBytes a k) :=
  (checkData_unaware a k .slice).bind fun _ => slice_unaware a k

end Storage

/-! ## The dictionary and compiling -/

section Compiling

variable {b : Bool}

theorem wordInfo_unaware (h : UInt32) : Unaware b (wordInfo h) :=
  Unaware.read (fun _ _ _ => rfl) fun _ => Unaware.region _

theorem allocate_unaware (k : UInt32) : Unaware b (allocate k) :=
  Unaware.read (fun _ _ _ => rfl) fun _ => Unaware.ite (Unaware.fail_bind _ _)
    ((Unaware.region _).bind fun _ => (changeRegion_unaware _).bind fun _ =>
      (Unaware.keep (fun _ _ => by rfl) (fun _ => by rfl)).bind fun _ => Unaware.ret _)

theorem define_unaware (name : Bytes) (flags : UInt8) : Unaware b (define name flags) :=
  Unaware.read (fun _ _ _ => rfl) fun _ =>
    (Unaware.tryCatch (allocate_unaware _) fun _ => Unaware.fail _).bind fun _ =>
      (copyIn_unaware _ _).bind fun _ =>
        Unaware.read (fun _ _ _ => rfl) fun _ =>
          (storCell_unaware _ _).bind fun _ => (storCell_unaware _ _).bind fun _ =>
            (Unaware.keep (fun _ _ => by rfl) (fun _ => by rfl)).bind fun _ =>
              (trace_unaware _ _).bind fun _ => Unaware.ret _

theorem setFlags_unaware (h : UInt32) (x y : UInt8) : Unaware b (setFlags h x y) :=
  (loadCell_unaware _).bind fun _ => storCell_unaware _ _

theorem compileCell_unaware (v : UInt32) : Unaware b (compileCell v) :=
  (allocate_unaware 4).bind fun _ => (storCell_unaware _ v).bind fun _ => Unaware.ret _

theorem compileToken_unaware (k : TokenKind) (a : UInt32) : Unaware b (compileToken k a) :=
  (compileCell_unaware _).bind fun _ => Unaware.read (fun _ _ _ => rfl) fun _ =>
    (trace_unaware _ _).bind fun _ => Unaware.ret _

theorem compileOperand_unaware (k : TokenKind) (v : UInt32) :
    Unaware b (compileOperand k v) :=
  (compileCell_unaware _).bind fun _ => (compileCell_unaware v).bind fun _ =>
    Unaware.read (fun _ _ _ => rfl) fun _ =>
      (trace_unaware _ _).bind fun _ => Unaware.ret _

theorem patch_unaware (site target : UInt32) : Unaware b (patch site target) :=
  storCell_unaware site target

theorem pushFixup_unaware (k : Fixup) (site : UInt32) : Unaware b (pushFixup k site) :=
  (push_unaware _ _).bind fun _ => push_unaware _ _

theorem popFixup_unaware (want : List Fixup) : Unaware b (popFixup want) :=
  Unaware.read (fun _ _ _ => rfl) fun _ =>
    Unaware.ite ((pop_unaware _).bind fun _ =>
        (dropCells_unaware _ _).bind fun _ => Unaware.ret _)
      (Unaware.fail _)

theorem compileWord_unaware (h : UInt32) : Unaware b (compileWord h) :=
  (wordInfo_unaware h).bind fun _ => Unaware.read (fun _ _ _ => rfl) fun _ =>
    Unaware.ite (Unaware.fail_bind _ _)
      (Unaware.ite ((loadCell_unaware _).bind fun _ => (compileCell_unaware _).bind fun _ =>
          Unaware.read (fun _ _ _ => rfl) fun _ => trace_unaware _ _)
        ((compileToken_unaware _ _).bind fun _ => Unaware.ret _))

theorem endDefinition_unaware : Unaware b endDefinition :=
  Unaware.read (fun _ _ _ => rfl) fun _ => Unaware.ite (Unaware.fail_bind _ _) <|
    Unaware.ite (Unaware.fail_bind _ _) <|
      (compileToken_unaware _ _).bind fun _ => (setFlags_unaware _ _ _).bind fun _ =>
        Unaware.read (fun _ _ _ => rfl) fun _ => (trace_unaware _ _).bind fun _ =>
          Unaware.close (fun _ _ => by rfl) (fun _ => by rfl) (fun _ => by rfl)

theorem makeImmediate_unaware : Unaware b makeImmediate :=
  Unaware.read (fun _ _ _ => rfl) fun _ => setFlags_unaware _ _ _

theorem compileRecurse_unaware : Unaware b compileRecurse :=
  Unaware.read (fun _ _ _ => rfl) fun _ => Unaware.ite (Unaware.fail_bind _ _)
    ((compileToken_unaware _ _).bind fun _ => Unaware.ret _)

theorem compileLiteral_unaware : Unaware b compileLiteral :=
  (pop_unaware _).bind fun _ => (compileOperand_unaware _ _).bind fun _ => Unaware.ret _

theorem compileExit_unaware : Unaware b compileExit :=
  (compileToken_unaware _ _).bind fun _ => Unaware.ret _

theorem compileIf_unaware : Unaware b compileIf :=
  (compileOperand_unaware _ _).bind fun _ => pushFixup_unaware _ _

theorem compileElse_unaware : Unaware b compileElse :=
  (popFixup_unaware _).bind fun _ => (compileOperand_unaware _ _).bind fun _ =>
    Unaware.read (fun _ _ _ => rfl) fun _ =>
      (patch_unaware _ _).bind fun _ => pushFixup_unaware _ _

theorem compileThen_unaware : Unaware b compileThen :=
  (popFixup_unaware _).bind fun _ => Unaware.read (fun _ _ _ => rfl) fun _ =>
    patch_unaware _ _

theorem compileBegin_unaware : Unaware b compileBegin :=
  Unaware.read (fun _ _ _ => rfl) fun _ => pushFixup_unaware _ _

theorem compileUntil_unaware : Unaware b compileUntil :=
  (popFixup_unaware _).bind fun _ => (compileOperand_unaware _ _).bind fun _ =>
    Unaware.ret _

theorem compileAgain_unaware : Unaware b compileAgain :=
  (popFixup_unaware _).bind fun _ => (compileOperand_unaware _ _).bind fun _ =>
    Unaware.ret _

theorem compileWhile_unaware : Unaware b compileWhile :=
  Unaware.read (fun _ _ _ => rfl) fun _ => Unaware.ite (Unaware.fail_bind _ _)
    ((compileOperand_unaware _ _).bind fun _ => pushFixup_unaware _ _)

theorem compileRepeat_unaware : Unaware b compileRepeat :=
  (popFixup_unaware _).bind fun _ => (popFixup_unaware _).bind fun _ =>
    (compileOperand_unaware _ _).bind fun _ => Unaware.read (fun _ _ _ => rfl) fun _ =>
      patch_unaware _ _

theorem compileDo_unaware : Unaware b compileDo :=
  (compileOperand_unaware _ _).bind fun _ => pushFixup_unaware _ _

theorem closeLoop_unaware (k : TokenKind) : Unaware b (closeLoop k) :=
  (popFixup_unaware _).bind fun _ => (compileOperand_unaware _ _).bind fun _ =>
    Unaware.read (fun _ _ _ => rfl) fun _ => patch_unaware _ _

theorem pushFromReturn_unaware (k : UInt32) : Unaware b (pushFromReturn k) :=
  (peek_unaware _ _).bind fun _ => push_unaware _ _

theorem leaveLoop_unaware : Unaware b leaveLoop :=
  (peek_unaware _ _).bind fun _ =>
    (Unaware.keep (fun _ _ => by rfl) (fun _ => by rfl)).bind fun _ => dropCells_unaware _ _

theorem compileString_unaware (text : Bytes) :
    Unaware b (printString.compileString text) :=
  (compileOperand_unaware _ _).bind fun _ => (allocate_unaware _).bind fun _ =>
    (copyIn_unaware _ _).bind fun _ => Unaware.read (fun _ _ _ => rfl) fun _ =>
      (patch_unaware _ _).bind fun _ => (compileOperand_unaware _ _).bind fun _ =>
        (compileOperand_unaware _ _).bind fun _ => Unaware.ret _

theorem allotSpace_unaware : Unaware b allotSpace := by
  refine (pop_unaware _).bind fun v => Unaware.ite ?_
    ((allocate_unaware v).bind fun _ => Unaware.ret _)
  intro z c hc
  simp only [EStateM.run_bind, EStateM.run_get]
  rw [show (z.recast c).here = z.here from rfl, show (z.recast c).latest = z.latest from rfl]
  split_ifs
  · exact ⟨rfl, c, hc, rfl, rfl⟩
  · exact ⟨rfl, c, hc.of_past rfl, rfl, rfl⟩

theorem compileByte_unaware : Unaware b compileByte :=
  (pop_unaware _).bind fun _ => (allocate_unaware _).bind fun _ =>
    storByte_unaware _ _

end Compiling

/-! ## Library, block and host words -/

section Words

variable {b : Bool}

theorem shuffleCells_unaware (arity : Nat) (perm : List Nat) :
    Unaware b (shuffleCells arity perm) :=
  (popN_unaware arity).bind fun _ => pushAll_unaware _

theorem divideCells_unaware (r : DivisionResult) : Unaware b (divideCells r) := by
  refine (popN_unaware 2).bind fun _ => Unaware.ite (Unaware.fail_bind _ _) ?_
  cases r
  · exact push_unaware _ _
  · exact push_unaware _ _
  · exact pushAll_unaware _

theorem formatCell_unaware (v : UInt32) (u : Bool) : Unaware b (formatCell v u) :=
  (radix_unaware).bind fun _ => Unaware.ite (Unaware.fail_bind _ _) (Unaware.ret _)

theorem callWord_unaware (h : UInt32) : Unaware b (callWord h) :=
  Unaware.read (fun _ _ _ => rfl) fun _ => (push_unaware _ _).bind fun _ =>
    Unaware.read (fun _ _ _ => rfl) fun _ => (push_unaware _ _).bind fun _ =>
      Unaware.keep (fun _ _ => by rfl) (fun _ => by rfl)

theorem writeSpacesGo_unaware (k fuel : Nat) : Unaware b (writeSpaces.go k fuel) := by
  induction fuel generalizing k with
  | zero => exact Unaware.ret _
  | succ fuel ih =>
    exact Unaware.ite (Unaware.ret _) ((emitBytes_unaware _).bind fun _ => ih _)

theorem writeSpaces_unaware (k : Int) : Unaware b (writeSpaces k) :=
  writeSpacesGo_unaware _ _

theorem withCache_unaware {α : Type} (op : CacheM Disk α) : Unaware b (withCache op) := by
  refine Unaware.read (fun _ _ _ => rfl) fun m => ?_
  split
  · exact Unaware.fail _
  · dsimp only
    split
    · exact (Unaware.keep (fun _ _ => by rfl) (fun _ => by rfl)).bind fun _ =>
        (changeRegion_unaware _).bind fun _ => Unaware.ret _
    · exact (Unaware.keep (fun _ _ => by rfl) (fun _ => by rfl)).bind fun _ =>
        (changeRegion_unaware _).bind fun _ => Unaware.fail _

theorem popBlockIndex_unaware : Unaware b popBlockIndex :=
  (pop_unaware _).bind fun _ => Unaware.ite (Unaware.fail_bind _ _) (Unaware.ret _)

theorem blockAddr_unaware (f : UInt16 → CacheM Disk UInt32) : Unaware b (blockAddr f) :=
  Unaware.read (fun _ _ _ => rfl) fun _ => Unaware.ite (Unaware.fail_bind _ _)
    ((popBlockIndex_unaware).bind fun _ => (withCache_unaware _).bind fun _ =>
      (trace_unaware _ _).bind fun _ => push_unaware _ _)

theorem blockWord_unaware (w : BlockWord) : Unaware b w.run := by
  cases w with
  | block => exact blockAddr_unaware _
  | buffer => exact blockAddr_unaware _
  | emptyBuffers => exact Unaware.keep (fun _ _ => by rfl) (fun _ => by rfl)
  | update => exact Unaware.keep (fun _ _ => by rfl) (fun _ => by rfl)
  | flush =>
    exact Unaware.read (fun _ _ _ => rfl) fun _ =>
      Unaware.ite (withCache_unaware _) (Unaware.ret _)

theorem hostAction_unaware (a : HostAction) : Unaware b a.run := by
  cases a with
  | pushValue v => exact push_unaware _ v
  | panic v => exact Unaware.fail _
  | exit => exact Unaware.fail _
  | fail msg => exact Unaware.fail _
  | print text => exact emitBytes_unaware _
  | add3 =>
    exact (pop_unaware _).bind fun _ => (pop_unaware _).bind fun _ =>
      (pop_unaware _).bind fun _ => push_unaware _ _
  | peekAt k =>
    exact Unaware.ite (Unaware.fail_bind _ _)
      ((peek_unaware _ _).bind fun _ => push_unaware _ _)
  | load => exact (pop_unaware _).bind fun _ => (loadData_unaware _).bind fun _ =>
      push_unaware _ _
  | store => exact (pop_unaware _).bind fun _ => (pop_unaware _).bind fun _ =>
      storData_unaware _ _

end Words

/-! ## The inner interpreter, apart from the primitives -/

section Inner

variable {b : Bool}

theorem fetchCode_unaware (pos : UInt32) : Unaware b (fetchCode pos) :=
  Unaware.read (fun _ _ _ => rfl) fun _ =>
    Unaware.ite (Unaware.fail_bind _ _) (loadCell_unaware pos)

theorem nextOperand_unaware : Unaware b nextOperand :=
  Unaware.read (fun _ _ _ => rfl) fun _ => (fetchCode_unaware _).bind fun _ =>
    (Unaware.keep (fun _ _ => by rfl) (fun _ => by rfl)).bind fun _ => Unaware.ret _

theorem enterLoop_unaware : Unaware b enterLoop :=
  (nextOperand_unaware).bind fun _ => (pop_unaware _).bind fun _ =>
    (pop_unaware _).bind fun _ => (push_unaware _ _).bind fun _ =>
      (push_unaware _ _).bind fun _ => push_unaware _ _

theorem stepLoop_unaware (step : UInt32) : Unaware b (stepLoop step) :=
  (nextOperand_unaware).bind fun _ => (peek_unaware _ _).bind fun _ =>
    (peek_unaware _ _).bind fun _ =>
      Unaware.ite (dropCells_unaware _ _)
        ((Unaware.keep (fun _ _ => by rfl) (fun _ => by rfl)).bind fun _ => poke_unaware _ _ _)

/-- Fetching a token checks the step budget and advances the count, neither a leftover. -/
theorem fetchToken_unaware (limit : StepLimit) : Unaware b (fetchToken limit) := by
  unfold fetchToken
  refine Unaware.readIte (fun _ _ => Iff.rfl) (fun z c hc => ⟨rfl, c, hc, rfl, rfl⟩) ?_
  -- past the count, the fetch reads the instruction pointer, the dictionary and the stacks
  refine Unaware.reset (fun z c hc => ⟨c, hc.of_past rfl, rfl, rfl⟩) (fun _ _ _ => rfl) fun _ => ?_
  exact Unaware.read (fun _ _ _ => rfl) fun d => (fetchCode_unaware d.ip).bind fun _ =>
    (Unaware.keep (fun _ _ => by rfl) (fun _ => by rfl)).bind fun _ =>
      Unaware.read (fun _ _ _ => rfl) fun _ => (trace_unaware _ _).bind fun _ => Unaware.ret _

theorem parseLiteral_unaware (tok : Bytes) : Unaware b (parseLiteral tok) := by
  refine (radix_unaware).bind fun r => ?_
  split
  · exact Unaware.ret _
  · split
    · exact Unaware.ret _
    · exact Unaware.fail _

end Inner

/-! ## Reading input

Within a line the input of a recast machine is its own, so the words that read it are unaware
of leftovers that fit within the line (`Unaware true`). -/

section Input

/-- Splitting the unread input in two, the first part the value and the second the new unread
input: the shape of `nextToken` and `parseUntil`. -/
theorem Unaware.splitInput (split : Bytes → Bytes × Bytes) :
    Unaware true
      (modifyGet fun m => ((split m.rest).1, { m with rest := (split m.rest).2 }) : Vm Bytes) := by
  intro z c hc
  have hfit : { c with rest := (split z.rest).2 }.Fits true { z with rest := (split z.rest).2 } :=
    ⟨hc.opened, hc.written, fun _ => ⟨hc.recast_line, rfl, hc.recast_token⟩⟩
  simp only [EStateM.run_modifyGet]
  rw [hc.recast_rest]
  exact ⟨rfl, _, hfit, rfl, rfl⟩

theorem nextToken_unaware : Unaware true nextToken := Unaware.splitInput splitToken

theorem parseUntil_unaware (d : UInt8) : Unaware true (parseUntil d) :=
  Unaware.splitInput (splitUntil d)

/-- Dropping the unread input sets it alike in both machines. -/
theorem skipLine_unaware {b : Bool} : Unaware b skipLine :=
  Unaware.update fun _ c hc =>
    ⟨{ c with rest := [] }, ⟨hc.opened, hc.written, fun hb => ⟨(hc.input hb).1, rfl, (hc.input hb).2.2⟩⟩,
      rfl, rfl⟩

theorem parseName_unaware : Unaware true parseName :=
  nextToken_unaware.bind fun _ =>
    Unaware.ite (Unaware.read (fun _ _ hc => by rw [hc.recast_token]) fun _ =>
      (Unaware.fail _).bind fun _ => Unaware.ret _) (Unaware.ret _)

theorem printString_unaware : Unaware true printString :=
  (parseUntil_unaware _).bind fun _ => Unaware.read (fun _ _ _ => rfl) fun _ =>
    Unaware.ite (emitBytes_unaware _) ((compileString_unaware _).bind fun _ =>
      (compileToken_unaware _ _).bind fun _ => Unaware.ret _)

theorem stringLiteral_unaware : Unaware true stringLiteral :=
  (parseUntil_unaware _).bind fun _ => Unaware.read (fun _ _ _ => rfl) fun _ =>
    Unaware.ite (compileString_unaware _) (Unaware.read (fun _ _ _ => rfl) fun _ =>
      Unaware.ite (Unaware.fail_bind _ _) ((copyIn_unaware _ _).bind fun _ =>
        (push_unaware _ _).bind fun _ => push_unaware _ _))

theorem parseChar_unaware : Unaware true parseChar :=
  parseName_unaware.bind fun _ => Unaware.ret _

theorem defineData_unaware (k : Bool) (v size : UInt32) : Unaware true (defineData k v size) :=
  parseName_unaware.bind fun _ => (define_unaware _ _).bind fun _ =>
    (compileOperand_unaware _ _).bind fun _ => (compileToken_unaware _ _).bind fun _ =>
      Unaware.ite ((allocate_unaware _).bind fun _ => Unaware.ret _) (Unaware.ret _)

/-- Opening a definition saves the cursors it will restore, alike in both machines. -/
theorem beginDefinition_unaware : Unaware true beginDefinition :=
  Unaware.read (fun _ _ _ => rfl) fun _ => Unaware.ite (Unaware.fail_bind _ _) <|
    parseName_unaware.bind fun _ => Unaware.read (fun _ _ _ => rfl) fun _ =>
      Unaware.read (fun _ _ _ => rfl) fun _ => (define_unaware _ _).bind fun _ =>
        Unaware.update fun _ c hc =>
          ⟨{ c with openHere := _, openLatest := _ }, ⟨fun _ => ⟨rfl, rfl⟩, hc.written, hc.input⟩,
            rfl, rfl⟩

end Input

/-! ## What a word does -/

section Reading

set_option linter.unusedSimpArgs false in
/-- A listing reads the dictionary only: through its cursor, its cells, and the strings and
tokens it shows. -/
theorem Machine.showBody_congr {x y : Machine} (hh : x.here = y.here) (hr : x.region = y.region)
    (hs : x.showString = y.showString) (ht : x.showToken = y.showToken) (pos reach : UInt32) :
    x.showBody pos reach = y.showBody pos reach := by
  -- unfold the left side along the right side's recursion, then read both alike
  fun_induction y.showBody pos reach <;> rw [Machine.showBody] <;>
    simp only [hh, hr, hs, ht] <;> clear hh hr hs ht
  all_goals simp +zetaDelta [*]
  -- the call after a branch: simp rewrote the reach it passes, the hypothesis still matches
  assumption

theorem Machine.showWord_recast (z : Machine) (c : Leftover) (h : UInt32) :
    (z.recast c).showWord h = z.showWord h := by
  unfold Machine.showWord
  rw [Machine.showBody_congr (x := z.recast c) (y := z) rfl rfl rfl rfl]
  rfl

theorem compilerWord_unaware (w : CompilerWord) : Unaware true w.run := by
  cases w with
  | typeString =>
    refine (popN_unaware 2).bind fun vals => ?_
    split
    · exact Unaware.ite (Unaware.ret _) ((dataBytes_unaware _ _).bind fun _ => emitBytes_unaware _)
    · exact Unaware.ret _
  | colon => exact beginDefinition_unaware
  | semicolon => exact endDefinition_unaware
  | immediate => exact makeImmediate_unaware
  | recurse => exact compileRecurse_unaware
  | literal => exact compileLiteral_unaware
  | exit => exact compileExit_unaware
  | ifWord => exact compileIf_unaware
  | elseWord => exact compileElse_unaware
  | thenWord => exact compileThen_unaware
  | begin => exact compileBegin_unaware
  | untilWord => exact compileUntil_unaware
  | again => exact compileAgain_unaware
  | whileWord => exact compileWhile_unaware
  | repeatWord => exact compileRepeat_unaware
  | doWord => exact compileDo_unaware
  | loopWord => exact closeLoop_unaware _
  | plusLoop => exact closeLoop_unaware _
  | loopIndex => exact pushFromReturn_unaware _
  | outerIndex => exact pushFromReturn_unaware _
  | leave => exact leaveLoop_unaware
  | unloop => exact dropCells_unaware _ _
  | comment => exact (parseUntil_unaware _).bind fun _ => Unaware.ret _
  | lineComment => exact skipLine_unaware
  | dotQuote => exact printString_unaware
  | sQuote => exact stringLiteral_unaware
  | char => exact parseChar_unaware.bind fun _ => push_unaware _ _
  | bracketChar =>
    exact parseChar_unaware.bind fun _ => (compileOperand_unaware _ _).bind fun _ => Unaware.ret _
  | constant => exact (pop_unaware _).bind fun v => defineData_unaware true v 0
  | «variable» => exact defineData_unaware false 0 4
  | create => exact defineData_unaware false 0 0
  | allot => exact allotSpace_unaware
  | comma => exact (pop_unaware _).bind fun _ => (compileCell_unaware _).bind fun _ => Unaware.ret _
  | cComma => exact compileByte_unaware
  | here => exact Unaware.read (fun _ _ _ => rfl) fun _ => push_unaware _ _

theorem libraryWord_unaware (w : LibraryWord) : Unaware true w.run := by
  cases w with
  | shuffle arity perm => exact shuffleCells_unaware arity perm
  | drop k => exact dropCells_unaware _ _
  | qdup => exact (peek_unaware _ _).bind fun _ => Unaware.ite (push_unaware _ _) (Unaware.ret _)
  | pick =>
    exact (pop_unaware _).bind fun _ => Unaware.ite (Unaware.fail_bind _ _)
      ((peek_unaware _ _).bind fun _ => push_unaware _ _)
  | depth => exact Unaware.read (fun _ _ _ => rfl) fun _ => push_unaware _ _
  | toR => exact (pop_unaware _).bind fun _ => push_unaware _ _
  | fromR => exact (pop_unaware _).bind fun _ => push_unaware _ _
  | fetchR => exact (peek_unaware _ _).bind fun _ => push_unaware _ _
  | binary op => exact (pop_unaware _).bind fun _ => (pop_unaware _).bind fun _ => push_unaware _ _
  | unary op => exact (pop_unaware _).bind fun _ => push_unaware _ _
  | divide r => exact divideCells_unaware r
  | pushConst v => exact push_unaware _ v
  | fetch =>
    exact (pop_unaware _).bind fun _ => (loadData_unaware _).bind fun _ => push_unaware _ _
  | store => exact (popN_unaware 2).bind fun _ => storData_unaware _ _
  | cFetch =>
    exact (pop_unaware _).bind fun _ => (dataBytes_unaware _ _).bind fun _ => push_unaware _ _
  | cStore =>
    exact (popN_unaware 2).bind fun _ => (dataBytes_unaware _ _).bind fun _ => storByte_unaware _ _
  | plusStore =>
    exact (popN_unaware 2).bind fun _ => (loadData_unaware _).bind fun _ => storData_unaware _ _
  | setRadix r => exact storData_unaware _ _
  | emit => exact (pop_unaware _).bind fun _ => emitBytes_unaware _
  | dot =>
    exact (pop_unaware _).bind fun _ => (formatCell_unaware _ _).bind fun _ => emitBytes_unaware _
  | uDot =>
    exact (pop_unaware _).bind fun _ => (formatCell_unaware _ _).bind fun _ => emitBytes_unaware _
  | dotS =>
    exact Unaware.read (fun _ _ _ => rfl) fun _ =>
      (Unaware.forIn (fun _ _ => (formatCell_unaware _ _).bind fun _ => Unaware.ret _) _ _).bind
        fun _ => emitBytes_unaware _
  | cr => exact emitBytes_unaware _
  | space => exact emitBytes_unaware _
  | spaces => exact (pop_unaware _).bind fun _ => writeSpaces_unaware _
  | type => exact compilerWord_unaware .typeString
  | words => exact Unaware.read (fun _ _ _ => rfl) fun _ => emitBytes_unaware _
  | see =>
    refine parseName_unaware.bind fun _ => Unaware.read (fun _ _ _ => rfl) fun _ => ?_
    split
    · exact Unaware.fail _
    · exact Unaware.read (fun z c _ => by rw [Machine.showWord_recast]) fun _ => emitBytes_unaware _
  | tick =>
    refine parseName_unaware.bind fun _ => Unaware.read (fun _ _ _ => rfl) fun _ => ?_
    split
    · exact Unaware.fail _
    · exact push_unaware _ _
  | execute =>
    exact (pop_unaware _).bind fun _ => Unaware.read (fun _ _ _ => rfl) fun _ =>
      Unaware.ite (Unaware.fail_bind _ _) ((wordInfo_unaware _).bind fun _ =>
        Unaware.read (fun _ _ _ => rfl) fun _ =>
          Unaware.ite (Unaware.fail_bind _ _) (callWord_unaware _))

theorem action_unaware (a : Action) : Unaware true a.run := by
  cases a with
  | compiler w => exact compilerWord_unaware w
  | library w => exact libraryWord_unaware w
  | blocks w => exact blockWord_unaware w
  | host a => exact hostAction_unaware a

end Reading

/-! ## Runs of the interpreters -/

section Runs

theorem callPrim_unaware (idx : UInt32) : Unaware true (callPrim idx) := by
  refine Unaware.read (fun _ _ _ => rfl) fun m => ?_
  split
  · exact action_unaware _
  · exact Unaware.fail _
  · exact Unaware.fail _

theorem dispatch_unaware (base pos code : UInt32) : Unaware true (dispatch base pos code) := by
  unfold dispatch
  split
  · exact Unaware.read (fun _ _ _ => rfl) fun _ =>
      Unaware.ite (Unaware.ret _) ((pop_unaware _).bind fun _ => (pop_unaware _).bind fun _ =>
        (Unaware.keep (fun _ _ => by rfl) (fun _ => by rfl)).bind fun _ => Unaware.ret _)
  · exact (callPrim_unaware _).bind fun _ => Unaware.ret _
  · exact (callWord_unaware _).bind fun _ => Unaware.ret _
  · exact nextOperand_unaware.bind fun _ => (push_unaware _ _).bind fun _ => Unaware.ret _
  · exact nextOperand_unaware.bind fun _ =>
      (Unaware.keep (fun _ _ => by rfl) (fun _ => by rfl)).bind fun _ => Unaware.ret _
  · exact nextOperand_unaware.bind fun _ => (pop_unaware _).bind fun _ =>
      Unaware.ite ((Unaware.keep (fun _ _ => by rfl) (fun _ => by rfl)).bind fun _ =>
        Unaware.ret _) (Unaware.ret _)
  · exact enterLoop_unaware.bind fun _ => Unaware.ret _
  · exact (stepLoop_unaware _).bind fun _ => Unaware.ret _
  · exact (pop_unaware _).bind fun _ => (stepLoop_unaware _).bind fun _ => Unaware.ret _
  · exact Unaware.fail _

theorem step_unaware (limit : StepLimit) (base : UInt32) : Unaware true (step limit base) :=
  (fetchToken_unaware limit).bind fun _ => dispatch_unaware _ _ _

theorem runSteps_unaware (limit : StepLimit) (base : UInt32) (fuel : Nat) :
    Unaware true (runSteps limit base fuel) := by
  induction fuel with
  | zero => exact Unaware.fail _
  | succ fuel ih =>
    refine (step_unaware limit base).bind fun done => ?_
    cases done with
    | true => exact Unaware.ret _
    | false => exact ih

/-- A run of a word starts from the return stack's depth and, under a budget, from the count of
dispatched tokens: neither is a leftover. -/
theorem runWord_unaware (limit : StepLimit) (h : UInt32) : Unaware true (runWord limit h) :=
  Unaware.reset (fun _ c hc => ⟨c, hc.of_past rfl, rfl, rfl⟩) (fun _ _ _ => by cases limit <;> rfl)
    fun _ => runSteps_unaware _ _ _

theorem interpretToken_unaware (limit : StepLimit) (tok : Bytes) :
    Unaware true (interpretToken limit tok) := by
  unfold interpretToken
  refine Unaware.read (fun _ _ _ => rfl) fun m => ?_
  split
  · refine (wordInfo_unaware _).bind fun info => ?_
    exact Unaware.ite (compileWord_unaware _) (Unaware.ite (Unaware.fail _)
      ((runWord_unaware limit _).bind fun _ => Unaware.keep (fun _ _ => by rfl) (fun _ => by rfl)))
  · exact (parseLiteral_unaware tok).bind fun _ => Unaware.read (fun _ _ _ => rfl) fun _ =>
      Unaware.ite ((compileOperand_unaware _ _).bind fun _ => Unaware.ret _) (push_unaware _ _)

/-- Interpreting the rest of a line: each token read becomes the machine's own token. -/
theorem interpret_unaware (limit : StepLimit) (fuel : Nat) : Unaware true (interpret limit fuel) := by
  induction fuel with
  | zero => exact Unaware.ret _
  | succ fuel ih =>
    refine nextToken_unaware.bind fun tok => Unaware.ite (Unaware.ret _) ?_
    refine (Unaware.update fun _ c hc => ⟨{ c with token := tok }, ?_, rfl, rfl⟩).bind fun _ =>
      (interpretToken_unaware limit tok).bind fun _ => ih
    exact ⟨hc.opened, hc.written, fun _ => ⟨hc.recast_line, hc.recast_rest, rfl⟩⟩

end Runs

/-! ## Laying out afresh -/

section Layout

variable {b : Bool}

theorem installPrimitive_unaware (p : Primitive) : Unaware b (installPrimitive p) := by
  simp only [installPrimitive]
  -- each check reads the name, the table or the room left, and a failed one throws at once
  refine Unaware.readIte (fun _ _ => Iff.rfl) (fun _ c hc => ⟨rfl, c, hc, rfl, rfl⟩) ?_
  refine Unaware.readIte (fun _ _ => Iff.rfl) (fun _ c hc => ⟨rfl, c, hc, rfl, rfl⟩) ?_
  refine Unaware.readIte (fun _ _ => Iff.rfl) (fun _ c hc => ⟨rfl, c, hc, rfl, rfl⟩) ?_
  refine Unaware.readIte (fun _ _ => Iff.rfl) (fun _ c hc => ⟨rfl, c, hc, rfl, rfl⟩) ?_
  -- past the checks the table grows alike, and the new word's header goes into the dictionary
  exact Unaware.reset (fun _ c hc => ⟨c, hc.of_past rfl, rfl, rfl⟩) (fun _ _ _ => rfl) fun _ =>
    (define_unaware _ _).bind fun _ => (compileToken_unaware _ _).bind fun _ =>
      (compileToken_unaware _ _).bind fun _ => Unaware.ret _

theorem installAll_unaware (ps : List Primitive) : Unaware b (installAll ps) :=
  Unaware.forM installPrimitive_unaware ps

theorem checkSettings_unaware (s : Settings) : Unaware b (checkSettings s) :=
  Unaware.ite (Unaware.fail_bind _ _) <| Unaware.ite (Unaware.fail_bind _ _) <|
    Unaware.ite (Unaware.fail_bind _ _) <| Unaware.ite (Unaware.fail _) (Unaware.ret _)

/-- Setting the cursors, the stacks and the cache afresh, as laying out does, closes any open
definition. -/
theorem layFresh_unaware (ds cs rs : Stack) (dl di : UInt32) (k : Option Cache) :
    Unaware b (modify fun m =>
      { m with data := ds, control := cs, ret := rs, dataLimit := dl, dictLimit := di, cache := k,
               here := dictBase, latest := 0, compiling := false, openWord := 0, ip := 0, cur := 0,
               steps := 0 } : Vm PUnit) :=
  Unaware.close (fun _ _ => rfl) (fun _ => rfl) (fun _ => rfl)

/-- Laying out reads the settings and the size of the region, and sets afresh the cursors, the
stacks, the cache and the primitive table, closing any open definition. -/
theorem layOut_unaware : Unaware b layOut := by
  simp only [layOut]
  refine Unaware.reset (fun _ c hc => ⟨c, hc.of_past rfl, rfl, rfl⟩) (fun _ _ _ => rfl) fun m =>
    (checkSettings_unaware _).bind fun _ => Unaware.ite (Unaware.fail_bind _ _) ?_
  -- with a device the block buffers go into the region first
  split
  all_goals first | refine (changeRegion_unaware _).bind fun _ => ?_ | skip
  all_goals
    exact (layFresh_unaware _ _ _ _ _ _).bind fun _ =>
      (storCell_unaware _ _).bind fun _ => (trace_unaware _ _).bind fun _ =>
        (Unaware.keep (fun _ _ => by rfl) (fun _ => by rfl)).bind fun _ =>
          (installAll_unaware _).bind fun _ => (installAll_unaware _).bind fun _ =>
            Unaware.ite ((installAll_unaware _).bind fun _ => installAll_unaware _)
              (installAll_unaware _)

theorem reset_unaware : Unaware b reset := by
  simp only [reset]
  exact Unaware.read (fun _ _ _ => rfl) fun _ =>
    Unaware.ite ((withCache_unaware _).bind fun _ => layOut_unaware) layOut_unaware

end Layout

end ForthMachine
