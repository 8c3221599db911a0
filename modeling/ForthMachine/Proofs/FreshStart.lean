import Mathlib
import ForthMachine.Proofs.Leftovers
import ForthMachine.Proofs.Fixture
import ForthMachine.Proofs.BlockBuffers

/-!
# A reset is a fresh start

A reset writes the updated blocks back and lays the machine out again over its own region.
Laying out reads only the settings and the size of the region: it zeroes the region and sets
afresh every field that later operations read, the cursors, the stacks, the cache and the
primitive table, before it reads any of them. What it leaves are the leftovers of
`Leftovers` (the saved cursors of a closed definition, the last line, the trace and the output
already written), which no operation sees, and the device and the channels, which it neither
reads nor changes (`Detached`).

So a reset that succeeds leaves the machine that creation makes with the same settings and a
region of the same size, on the device and channels the machine has now, up to leftovers; and
from there on every call answers as it does on that new machine and writes the same output.
-/

namespace ForthMachine

open ForthMachine.Text ForthMachine.Memory ForthMachine.Block

/-! ## The device and the channels -/

/-- The machine `z` on the device `d`, writing to the channels `k`. -/
def Machine.attach (z : Machine) (d : Option Disk) (k : Sink) : Machine :=
  { z with disk := d, sink := k }

/-- An outcome whose state is put on the device `d` and the channels `k`. -/
def Vm.attach {α : Type} (d : Option Disk) (k : Sink) :
    EStateM.Result MachineError Machine α → EStateM.Result MachineError Machine α
  | .ok a z => .ok a (z.attach d k)
  | .error e z => .error e (z.attach d k)

/-- The operation neither reads nor changes the device and the channels: run on another
device and other channels, it ends as it does, on those. -/
def Detached {α : Type} (op : Vm α) : Prop :=
  ∀ z d k, op.run (z.attach d k) = Vm.attach d k (op.run z)

namespace Detached

variable {α β : Type}

theorem ret (a : α) : Detached (Pure.pure a : Vm α) := fun _ _ _ => rfl

theorem fail (e : MachineError) : Detached (MonadExcept.throw e : Vm α) := fun _ _ _ => rfl

/-- Whatever would follow an error is never run. -/
theorem fail_bind (e : MachineError) (f : α → Vm β) : Detached (MonadExcept.throw e >>= f) :=
  fun _ _ _ => rfl

theorem bind {x : Vm α} {f : α → Vm β} (hx : Detached x) (hf : ∀ a, Detached (f a)) :
    Detached (x >>= f) := by
  intro z d k
  rw [EStateM.run_bind, EStateM.run_bind, hx z d k]
  cases x.run z with
  | ok a z' => exact hf a z' d k
  | error e z' => rfl

/-- Reading the state: the continuation does not depend on the device or the channels. -/
theorem read {f : Machine → Vm α} (hf : ∀ z d k, f (z.attach d k) = f z)
    (hb : ∀ m, Detached (f m)) : Detached (get >>= f) := by
  intro z d k
  show (f (z.attach d k)).run (z.attach d k) = _
  rw [hf z d k]
  exact hb z z d k

theorem update {f : Machine → Machine} (hf : ∀ z d k, f (z.attach d k) = (f z).attach d k) :
    Detached (modify f : Vm PUnit) := by
  intro z d k
  show EStateM.Result.ok _ (f (z.attach d k)) = _
  rw [hf]
  rfl

/-- Setting a state computed from the one read, and going on with what does not depend on the
device or the channels. -/
theorem reset {g : Machine → Machine} {f : Machine → Vm α}
    (hg : ∀ z d k, g (z.attach d k) = (g z).attach d k) (hf : ∀ z d k, f (z.attach d k) = f z)
    (hb : ∀ m, Detached (f m)) : Detached (get >>= fun m => set (g m) >>= fun _ => f m) := by
  intro z d k
  show (f (z.attach d k)).run (g (z.attach d k)) = Vm.attach d k ((f z).run (g z))
  rw [hg, hf]
  exact hb z (g z) d k

/-- Reading the state and branching on something the device and the channels do not change. -/
theorem readIte {p : Machine → Prop} [DecidablePred p] {x y : Machine → Vm α}
    (hp : ∀ z d k, p (z.attach d k) ↔ p z) (hx : Detached (get >>= x))
    (hy : Detached (get >>= y)) : Detached (get >>= fun m => if p m then x m else y m) := by
  intro z d k
  show (if p (z.attach d k) then x (z.attach d k) else y (z.attach d k)).run (z.attach d k) =
    Vm.attach d k ((if p z then x z else y z).run z)
  by_cases h : p z
  · rw [if_pos ((hp z d k).2 h), if_pos h]
    exact hx z d k
  · rw [if_neg (mt (hp z d k).1 h), if_neg h]
    exact hy z d k

theorem region (r : Except AddrError α) : Detached (Vm.ofRegion r) := by
  cases r <;> exact fun _ _ _ => rfl

theorem ite {p : Prop} [Decidable p] {x y : Vm α} (hx : Detached x) (hy : Detached y) :
    Detached (if p then x else y) := by
  split
  · exact hx
  · exact hy

theorem tryCatch {x : Vm α} {h : MachineError → Vm α} (hx : Detached x)
    (hh : ∀ e, Detached (h e)) : Detached (tryCatch x h) := by
  intro z d k
  have hs : x (z.attach d k) = Vm.attach d k (x z) := hx z d k
  show EStateM.tryCatch x h (z.attach d k) = Vm.attach d k (EStateM.tryCatch x h z)
  unfold EStateM.tryCatch
  rw [hs]
  cases x z with
  | ok a z' => rfl
  | error e z' => exact hh e z' d k

theorem forM {f : α → Vm PUnit} (hf : ∀ a, Detached (f a)) (l : List α) :
    Detached (l.forM f) := by
  induction l with
  | nil => exact ret _
  | cons a l ih => exact (hf a).bind fun _ => ih

end Detached

/-! ## Laying out, detached -/

theorem trace_detached (mark : String) (message : Unit → Bytes) :
    Detached (trace mark message) := by
  refine Detached.update fun z d k => ?_
  by_cases h : z.settings.tracing
  · simp [Machine.attach, h]
  · simp [Machine.attach, h]

theorem changeRegion_detached (f : Region → Region) : Detached (changeRegion f) :=
  fun _ _ _ => rfl

theorem storCell_detached (a v : UInt32) : Detached (storCell a v) :=
  Detached.read (fun _ _ _ => rfl) fun _ =>
    (Detached.region _).bind fun _ => changeRegion_detached _

theorem copyIn_detached (a : UInt32) (bs : Bytes) : Detached (copyIn a bs) :=
  Detached.read (fun _ _ _ => rfl) fun _ =>
    (Detached.region _).bind fun _ => changeRegion_detached _

theorem allocate_detached (n : UInt32) : Detached (allocate n) :=
  Detached.read (fun _ _ _ => rfl) fun _ => Detached.ite (Detached.fail_bind _ _)
    ((Detached.region _).bind fun _ => (changeRegion_detached _).bind fun _ =>
      (Detached.update fun _ _ _ => rfl).bind fun _ => Detached.ret _)

theorem define_detached (name : Bytes) (flags : UInt8) : Detached (define name flags) :=
  Detached.read (fun _ _ _ => rfl) fun _ =>
    (Detached.tryCatch (allocate_detached _) fun _ => Detached.fail _).bind fun _ =>
      (copyIn_detached _ _).bind fun _ =>
        Detached.read (fun _ _ _ => rfl) fun _ =>
          (storCell_detached _ _).bind fun _ => (storCell_detached _ _).bind fun _ =>
            (Detached.update fun _ _ _ => rfl).bind fun _ =>
              (trace_detached _ _).bind fun _ => Detached.ret _

theorem compileCell_detached (v : UInt32) : Detached (compileCell v) :=
  (allocate_detached 4).bind fun _ => (storCell_detached _ v).bind fun _ => Detached.ret _

theorem compileToken_detached (k : TokenKind) (a : UInt32) : Detached (compileToken k a) :=
  (compileCell_detached _).bind fun _ => Detached.read (fun _ _ _ => rfl) fun _ =>
    (trace_detached _ _).bind fun _ => Detached.ret _

theorem installPrimitive_detached (p : Primitive) : Detached (installPrimitive p) := by
  simp only [installPrimitive]
  -- each check reads the name, the table or the room left, and a failed one throws at once
  refine Detached.readIte (fun _ _ _ => Iff.rfl) (fun _ _ _ => rfl) ?_
  refine Detached.readIte (fun _ _ _ => Iff.rfl) (fun _ _ _ => rfl) ?_
  refine Detached.readIte (fun _ _ _ => Iff.rfl) (fun _ _ _ => rfl) ?_
  refine Detached.readIte (fun _ _ _ => Iff.rfl) (fun _ _ _ => rfl) ?_
  exact Detached.reset (fun _ _ _ => rfl) (fun _ _ _ => rfl) fun _ =>
    (define_detached _ _).bind fun _ => (compileToken_detached _ _).bind fun _ =>
      (compileToken_detached _ _).bind fun _ => Detached.ret _

theorem installAll_detached (ps : List Primitive) : Detached (installAll ps) :=
  Detached.forM installPrimitive_detached ps

theorem checkSettings_detached (s : Settings) : Detached (checkSettings s) :=
  Detached.ite (Detached.fail_bind _ _) <| Detached.ite (Detached.fail_bind _ _) <|
    Detached.ite (Detached.fail_bind _ _) <| Detached.ite (Detached.fail _) (Detached.ret _)

/-- Laying out reads the settings and the size of the region and writes only the machine's own
fields: the device and the channels are never touched. -/
theorem layOut_detached : Detached layOut := by
  simp only [layOut]
  refine Detached.reset (fun _ _ _ => rfl) (fun _ _ _ => rfl) fun m =>
    (checkSettings_detached _).bind fun _ => Detached.ite (Detached.fail_bind _ _) ?_
  -- with a device the block buffers go into the region first
  split
  on_goal 1 => refine (changeRegion_detached _).bind fun _ => ?_
  all_goals
    exact (Detached.update fun _ _ _ => rfl).bind fun _ =>
      (storCell_detached _ _).bind fun _ => (trace_detached _ _).bind fun _ =>
        (Detached.update fun _ _ _ => rfl).bind fun _ =>
          (installAll_detached _).bind fun _ => (installAll_detached _).bind fun _ =>
            Detached.ite ((installAll_detached _).bind fun _ => installAll_detached _)
              (installAll_detached _)

/-! ## Laying out reads the settings and the size of the region -/

/-- The machine `z` with the fields of `o` that laying out sets afresh: the cursors, the mode,
the stacks, the inner interpreter's registers and count, the primitive table and the cache. -/
def Machine.overlay (z o : Machine) : Machine :=
  { z with here := o.here, latest := o.latest, dictLimit := o.dictLimit, dataLimit := o.dataLimit,
           compiling := o.compiling, openWord := o.openWord, data := o.data, ret := o.ret,
           control := o.control, ip := o.ip, cur := o.cur, steps := o.steps, prims := o.prims,
           cache := o.cache }

/-- Two outcomes alike: the same value in states related by `S`, or the same error. -/
def Vm.Agree {α : Type} (S : Machine → Machine → Prop) :
    EStateM.Result MachineError Machine α → EStateM.Result MachineError Machine α → Prop
  | .ok a y₁, .ok b y₂ => a = b ∧ S y₁ y₂
  | .error e _, .error f _ => e = f
  | _, _ => False

/-- Run from two states related by `R`, the operation ends alike, in states related by `S`. -/
def Lockstep {α : Type} (R S : Machine → Machine → Prop) (op : Vm α) : Prop :=
  ∀ z₁ z₂, R z₁ z₂ → Vm.Agree S (op.run z₁) (op.run z₂)

namespace Lockstep

variable {α β : Type} {R S T : Machine → Machine → Prop}

theorem ret (a : α) : Lockstep R R (Pure.pure a : Vm α) := fun _ _ h => ⟨rfl, h⟩

theorem fail (e : MachineError) : Lockstep R S (MonadExcept.throw e : Vm α) :=
  fun _ _ _ => rfl

theorem fail_bind (e : MachineError) (f : α → Vm β) :
    Lockstep R S (MonadExcept.throw e >>= f) :=
  fun _ _ _ => rfl

theorem bind {x : Vm α} {f : α → Vm β} (hx : Lockstep R S x) (hf : ∀ a, Lockstep S T (f a)) :
    Lockstep R T (x >>= f) := by
  intro z₁ z₂ h
  have hr := hx z₁ z₂ h
  rw [EStateM.run_bind, EStateM.run_bind]
  cases h₁ : x.run z₁ <;> cases h₂ : x.run z₂ <;> rw [h₁, h₂] at hr
  case ok.ok a y₁ b y₂ =>
    obtain ⟨rfl, hy⟩ := hr
    exact hf a y₁ y₂ hy
  case error.error => exact hr
  all_goals exact hr.elim

/-- Reading the state: the continuation is the same from two related states. -/
theorem read {f : Machine → Vm α} (hf : ∀ z₁ z₂, R z₁ z₂ → f z₁ = f z₂)
    (hb : ∀ m, Lockstep R S (f m)) : Lockstep R S (get >>= f) := by
  intro z₁ z₂ h
  show Vm.Agree S ((f z₁).run z₁) ((f z₂).run z₂)
  rw [hf z₁ z₂ h]
  exact hb z₂ z₁ z₂ h

theorem update {f : Machine → Machine} (hf : ∀ z₁ z₂, R z₁ z₂ → S (f z₁) (f z₂)) :
    Lockstep R S (modify f : Vm PUnit) :=
  fun z₁ z₂ h => ⟨rfl, hf z₁ z₂ h⟩

theorem region (r : Except AddrError α) : Lockstep R R (Vm.ofRegion r) := by
  cases r
  · exact fun _ _ _ => rfl
  · exact fun _ _ h => ⟨rfl, h⟩

theorem ite {p : Prop} [Decidable p] {x y : Vm α} (hx : Lockstep R S x) (hy : Lockstep R S y) :
    Lockstep R S (if p then x else y) := by
  split
  · exact hx
  · exact hy

/-- From one and the same state every operation ends alike. -/
theorem same (op : Vm α) : Lockstep Eq Eq op := by
  rintro z _ rfl
  cases op.run z with
  | ok a y => exact ⟨rfl, rfl⟩
  | error e y => rfl

end Lockstep

/-- Machines equal but for the fields laying out sets afresh. -/
abbrev Machine.BelowLayout (z₁ z₂ : Machine) : Prop := z₁.overlay z₂ = z₂

/-- Machines equal but for their primitive tables. -/
abbrev Machine.BelowPrims (z₁ z₂ : Machine) : Prop := { z₁ with prims := z₂.prims } = z₂

theorem changeRegion_belowLayout (f : Region → Region) :
    Lockstep Machine.BelowLayout Machine.BelowLayout (changeRegion f) := by
  intro z₁ z₂ h
  refine ⟨rfl, ?_⟩
  show ({ z₁ with region := f z₁.region } : Machine).overlay { z₂ with region := f z₂.region } =
    { z₂ with region := f z₂.region }
  conv_rhs => rw [← h]
  rfl

theorem changeRegion_belowPrims (f : Region → Region) :
    Lockstep Machine.BelowPrims Machine.BelowPrims (changeRegion f) := by
  intro z₁ z₂ h
  refine ⟨rfl, ?_⟩
  show { ({ z₁ with region := f z₁.region } : Machine) with prims := z₂.prims } =
    { z₂ with region := f z₂.region }
  conv_rhs => rw [← h]

theorem storCell_belowPrims (a v : UInt32) :
    Lockstep Machine.BelowPrims Machine.BelowPrims (storCell a v) :=
  Lockstep.read (fun z₁ _ h => by rw [← h]) fun _ =>
    (Lockstep.region _).bind fun _ => changeRegion_belowPrims _

theorem trace_belowPrims (mark : String) (message : Unit → Bytes) :
    Lockstep Machine.BelowPrims Machine.BelowPrims (trace mark message) := by
  refine Lockstep.update fun z₁ z₂ h => ?_
  rw [← h]
  by_cases ht : z₁.settings.tracing
  · simp [ht]
  · simp [ht]

theorem checkSettings_lockstep {R : Machine → Machine → Prop} (s : Settings) :
    Lockstep R R (checkSettings s) :=
  Lockstep.ite (Lockstep.fail_bind _ _) <| Lockstep.ite (Lockstep.fail_bind _ _) <|
    Lockstep.ite (Lockstep.fail_bind _ _) <| Lockstep.ite (Lockstep.fail _) (Lockstep.ret _)

/-- A run that zeroes a region and goes on with a program computed from the state it read ends
alike from two states, when the program is the same for both and steps in lockstep from the
two states it set. -/
theorem Vm.agree_of_reset {α : Type} {R S : Machine → Machine → Prop} {g : Machine → Machine}
    {f : Machine → Vm α} {z₁ z₂ : Machine} (hf : f z₁ = f z₂) (hs : Lockstep R S (f z₂))
    (hg : R (g z₁) (g z₂)) :
    Vm.Agree S ((get >>= fun m => set (g m) >>= fun _ => f m).run z₁)
      ((get >>= fun m => set (g m) >>= fun _ => f m).run z₂) := by
  show Vm.Agree S ((f z₁).run (g z₁)) ((f z₂).run (g z₂))
  rw [hf]
  exact hs _ _ hg

/-- Laying out reads of a machine only its settings, the size of its region and the fields it
carries over: from two machines that agree on these it ends alike, in the same state. -/
theorem layOut_agree {z₁ z₂ : Machine} (hs : z₁.settings = z₂.settings)
    (hn : z₁.region.bytes.size = z₂.region.bytes.size)
    (hb : Machine.BelowLayout { z₁ with region := Region.zeroed z₁.region.bytes.size }
      { z₂ with region := Region.zeroed z₂.region.bytes.size }) :
    Vm.Agree Eq (layOut.run z₁) (layOut.run z₂) := by
  simp only [layOut]
  refine Vm.agree_of_reset (by simp only [hs, hn]) ?_ hb
  refine (checkSettings_lockstep _).bind fun _ => Lockstep.ite (Lockstep.fail_bind _ _) ?_
  -- with a device the block buffers go into the zeroed region first
  split
  on_goal 1 => refine (changeRegion_belowLayout _).bind fun _ => ?_
  -- then every field read later is set afresh, and the primitive table last
  all_goals
    exact (Lockstep.update fun z₁ z₂ h => by (conv_rhs => rw [← h]); rfl).bind fun _ =>
      (storCell_belowPrims _ _).bind fun _ => (trace_belowPrims _ _).bind fun _ =>
        (Lockstep.update fun z₁ z₂ h => by conv_rhs => rw [← h]).bind fun _ =>
          Lockstep.same _

/-! ## Lines, host calls and sessions do not see leftovers -/

section Sessions

variable {z : Machine} {c : Leftover} {b : Bool}

/-- What a call answers the host: for a line, the error it ended with, if any; for any other
call, the cell it returns (`pop`, `peek` and `load`) or the error it fails with. -/
def Machine.reply (m : Machine) : HostCall → Option LineError ⊕ Except MachineError (Option UInt32)
  | .line bs => .inl (m.processLine bs).2
  | .reset => .inr ((Vm.answer reset m).map fun _ => none)
  | .push v => .inr ((Vm.answer (push .data v) m).map fun _ => none)
  | .pop => .inr ((Vm.answer (pop .data) m).map some)
  | .peek n => .inr ((Vm.answer (peekCell n) m).map some)
  | .load a => .inr ((Vm.answer (loadData a) m).map some)
  | .store a v => .inr ((Vm.answer (storData a v) m).map fun _ => none)
  | .flush => .inr ((Vm.answer flushOutput m).map fun _ => none)

/-- The answers to a session's calls, in order. -/
def Machine.replies (m : Machine) :
    List HostCall → List (Option LineError ⊕ Except MachineError (Option UInt32))
  | [] => []
  | call :: calls => m.reply call :: (m.perform call).replies calls

/-- An operation that does not see leftovers answers alike on a recast machine and ends in the
state it reaches, recast. -/
theorem Unaware.answer {α : Type} {x : Vm α} (hx : Unaware b x) (hc : c.Fits b z) :
    Vm.answer x (z.recast c) = Vm.answer x z ∧
      ∃ c', c'.Fits b (Vm.ended (x.run z)) ∧ c'.written = c.written ∧
        Vm.ended (x.run (z.recast c)) = (Vm.ended (x.run z)).recast c' := by
  have h := hx z c hc
  unfold Vm.answer
  cases h₁ : x.run (z.recast c) <;> cases h₂ : x.run z <;> rw [h₁, h₂] at h
  case ok.ok =>
    obtain ⟨rfl, c', hc', hw, rfl⟩ := h
    exact ⟨rfl, c', hc', hw, rfl⟩
  case error.error =>
    obtain ⟨rfl, c', hc', hw, rfl⟩ := h
    exact ⟨rfl, c', hc', hw, rfl⟩
  all_goals exact h.elim

theorem peekCell_unaware (n : Int) : Unaware b (peekCell n) :=
  Unaware.ite (Unaware.fail_bind _ _) (peek_unaware _ _)

theorem flushOutput_unaware : Unaware b flushOutput := by
  refine Unaware.read (fun z c hc => ?_) fun m => ?_
  · simp only [Machine.recast, Sink.flush_after _ _ hc.written]
  · split
    · exact Unaware.fail _
    · exact Unaware.ret _

/-- A trace note on a recast machine is the note on the machine, recast with the new trace. -/
theorem Machine.note_recast (hc : c.Fits b z) (mark : String) (message : Bytes) :
    ∃ c', c'.Fits b (z.note mark message) ∧ c'.written = c.written ∧
      (z.recast c).note mark message = (z.note mark message).recast c' := by
  obtain ⟨t₁, h₁⟩ := (z.recast c).note_eq mark message
  obtain ⟨t₂, h₂⟩ := z.note_eq mark message
  rw [h₁, h₂]
  exact ⟨{ c with trace := t₁ }, (hc.with_trace t₁).of_past rfl, rfl, rfl⟩

theorem Machine.noteAbort_recast (hc : c.Fits b z) (e : MachineError) :
    ∃ c', c'.Fits b (z.noteAbort e) ∧ c'.written = c.written ∧
      (z.recast c).noteAbort e = (z.noteAbort e).recast c' := by
  unfold Machine.noteAbort
  split
  · exact Machine.note_recast hc _ _
  · exact ⟨c, hc, rfl, rfl⟩

theorem Machine.noteFlushFailure_recast (hc : c.Fits b z) :
    ∃ c', c'.Fits b z.noteFlushFailure ∧ c'.written = c.written ∧
      (z.recast c).noteFlushFailure = z.noteFlushFailure.recast c' := by
  unfold Machine.noteFlushFailure
  rw [show (z.recast c).sink = z.sink.after c.written from rfl, Sink.flush_after _ _ hc.written]
  split
  · exact Machine.note_recast hc _ _
  · exact ⟨c, hc, rfl, rfl⟩

/-- Recovering from a fault within a line: the same fault, and the recovered state recast; the
saved cursors it restores are the machine's own, since a definition is open. -/
theorem Machine.recover_recast (hc : c.Fits true z) (e : MachineError) :
    ((z.recast c).recover e).2 = (z.recover e).2 ∧
      ∃ c', c'.Fits true (z.recover e).1 ∧ c'.written = c.written ∧
        ((z.recast c).recover e).1 = (z.recover e).1.recast c' := by
  refine ⟨by rw [Machine.recover_fault, Machine.recover_fault, hc.recast_token, hc.recast_line]; rfl,
    ?_⟩
  obtain ⟨t₁, h₁⟩ := (z.recast c).recover_state e
  obtain ⟨t₂, h₂⟩ := z.recover_state e
  rw [h₁, h₂]
  refine ⟨{ c with trace := t₁ }, (hc.with_trace t₁).of_closed rfl rfl, rfl, ?_⟩
  by_cases hw : z.openWord = 0
  · simp only [Machine.recast, hw, if_true]
  · obtain ⟨hh, hl⟩ := hc.opened hw
    simp only [Machine.recast, hw, if_false, hh, hl]

/-- A line on a recast machine ends with the same error, if any, in the state the line leaves,
recast: the line, its input and its token become the machine's own as the line starts. -/
theorem Machine.processLineWithin_recast (hc : c.Fits false z) (limit : StepLimit)
    (line : Bytes) :
    ((z.recast c).processLineWithin limit line).2 = (z.processLineWithin limit line).2 ∧
      ∃ c', c'.Fits false (z.processLineWithin limit line).1 ∧ c'.written = c.written ∧
        ((z.recast c).processLineWithin limit line).1 =
          (z.processLineWithin limit line).1.recast c' := by
  set z₀ : Machine := { z with line := line, rest := line, token := [], steps := 0 }
  have hc₀ : { c with line := line, rest := line, token := [] }.Fits true z₀ :=
    ⟨hc.opened, hc.written, fun _ => ⟨rfl, rfl, rfl⟩⟩
  obtain ⟨c₁, hc₁, hw₁, h₁⟩ := Machine.note_recast hc₀ "<" (quote line)
  have hrun := interpret_unaware limit (line.length + 1) _ _ hc₁
  have hstart : ({ z.recast c with line := line, rest := line, token := [], steps := 0 } :
      Machine).note "<" (quote line) = (z₀.note "<" (quote line)).recast c₁ := h₁
  simp only [Machine.processLineWithin, hstart]
  cases h₁ : (interpret limit (line.length + 1)).run ((z₀.note "<" (quote line)).recast c₁) <;>
    cases h₂ : (interpret limit (line.length + 1)).run (z₀.note "<" (quote line)) <;>
    rw [h₁, h₂] at hrun
  case ok.ok y₁ _ y₂ =>
    -- the line ran to its end: the flush reads only the kinds of the channels
    obtain ⟨-, c', hc', hw', rfl⟩ := hrun
    simp only [show (y₂.recast c').sink = y₂.sink.after c'.written from rfl,
      Sink.flush_after _ _ hc'.written]
    split <;> exact ⟨rfl, c', hc'.outside, hw'.trans hw₁, rfl⟩
  case error.error e y₁ _ y₂ =>
    -- the line faulted: the notes and the recovery see no leftover
    obtain ⟨rfl, c', hc', hw', rfl⟩ := hrun
    obtain ⟨c₂, hc₂, hw₂, h₂⟩ := Machine.noteAbort_recast hc' e
    obtain ⟨hf, c₃, hc₃, hw₃, h₃⟩ := Machine.recover_recast hc₂ e
    obtain ⟨c₄, hc₄, hw₄, h₄⟩ := Machine.noteFlushFailure_recast (b := false) hc₃.outside
    simp only [h₂, h₃, hf, h₄, true_and]
    exact ⟨c₄, hc₄, hw₄.trans (hw₃.trans (hw₂.trans (hw'.trans hw₁))), rfl⟩
  all_goals exact hrun.elim

/-- Every host call answers alike on a recast machine and leaves the state it leaves, recast. -/
theorem Machine.perform_recast (hc : c.Fits false z) (call : HostCall) :
    (z.recast c).reply call = z.reply call ∧
      ∃ c', c'.Fits false (z.perform call) ∧ c'.written = c.written ∧
        (z.recast c).perform call = (z.perform call).recast c' := by
  cases call with
  | line bs =>
    obtain ⟨h, c', hc', hw, h'⟩ := Machine.processLineWithin_recast hc z.stepLimit bs
    exact ⟨congrArg Sum.inl h, c', hc', hw, h'⟩
  | reset =>
    obtain ⟨h, h'⟩ := (reset_unaware (b := false)).answer hc
    exact ⟨by simp only [Machine.reply, h], h'⟩
  | push v =>
    obtain ⟨h, h'⟩ := (push_unaware (b := false) .data v).answer hc
    exact ⟨by simp only [Machine.reply, h], h'⟩
  | pop =>
    obtain ⟨h, h'⟩ := (pop_unaware (b := false) .data).answer hc
    exact ⟨by simp only [Machine.reply, h], h'⟩
  | peek n =>
    obtain ⟨h, h'⟩ := (peekCell_unaware (b := false) n).answer hc
    exact ⟨by simp only [Machine.reply, h], h'⟩
  | load a =>
    obtain ⟨h, h'⟩ := (loadData_unaware (b := false) a).answer hc
    exact ⟨by simp only [Machine.reply, h], h'⟩
  | store a v =>
    obtain ⟨h, h'⟩ := (storData_unaware (b := false) a v).answer hc
    exact ⟨by simp only [Machine.reply, h], h'⟩
  | flush =>
    obtain ⟨h, h'⟩ := (flushOutput_unaware (b := false)).answer hc
    exact ⟨by simp only [Machine.reply, h], h'⟩

/-- A session on a recast machine gets the same answers and leaves the state it leaves, recast
with the same earlier output. -/
theorem Machine.performAll_recast (hc : c.Fits false z) (calls : List HostCall) :
    (z.recast c).replies calls = z.replies calls ∧
      ∃ c', c'.Fits false (z.performAll calls) ∧ c'.written = c.written ∧
        (z.recast c).performAll calls = (z.performAll calls).recast c' := by
  induction calls generalizing z c with
  | nil => exact ⟨rfl, c, hc, rfl, rfl⟩
  | cons call calls ih =>
    obtain ⟨h, c', hc', hw, h'⟩ := Machine.perform_recast hc call
    obtain ⟨hs, c'', hc'', hw', h''⟩ := ih hc'
    refine ⟨?_, c'', hc'', hw'.trans hw, ?_⟩
    · simp only [Machine.replies, h, h', hs]
    · simp only [Machine.performAll_cons, h', h'']

end Sessions

/-! ## Laying out again makes the created machine -/

/-- Channels with nothing written before them are the channels themselves. -/
theorem Sink.after_replicate (s : Sink) :
    s.after (List.replicate s.channels.length ByteArray.empty) = s := by
  obtain ⟨cs⟩ := s
  simp only [Sink.after, Sink.mk.injEq]
  induction cs with
  | nil => rfl
  | cons c cs ih => simp [List.replicate_succ, ih]

/-- Creating a machine that succeeds is laying out its blank machine. -/
theorem layOut_blank_of_created {n : Nat} {s : Settings} (hc : (Machine.create n s).2 = none) :
    layOut.run (Machine.blank n s) = .ok () (Machine.create n s).1 := by
  unfold Machine.create at hc ⊢
  split at hc
  · rename_i heq
    rw [heq]
  · exact absurd hc (by simp)

/-- Laying out a machine reached from a creation that succeeded ends in the created machine,
on the machine's device and channels, up to leftovers that fit it: the saved cursors, the line
and the trace of the machine, and no earlier output. -/
theorem layOut_created {n : Nat} {s : Settings} (hc : (Machine.create n s).2 = none)
    {m : Machine} (hm : (Fixture.created n s).Holds m) :
    ∃ c, c.Fits false ((Machine.create n s).1.attach m.disk m.sink) ∧
      c.written = List.replicate m.sink.channels.length ByteArray.empty ∧
      layOut.run m = .ok () (((Machine.create n s).1.attach m.disk m.sink).recast c) := by
  obtain ⟨hfix, h4⟩ := hm
  simp only [Machine.fixture, Fixture.created, Fixture.mk.injEq] at hfix
  obtain ⟨hs, hn, -⟩ := hfix
  -- the blank machine on the same device and channels, with the machine's leftovers
  set B : Machine := (Machine.blank n s).attach m.disk m.sink
  set c₀ : Leftover := ⟨m.openHere, m.openLatest, m.line, m.rest, m.token, m.trace,
    List.replicate m.sink.channels.length ByteArray.empty⟩
  have hc₀ : c₀.Fits false B :=
    ⟨fun h => absurd rfl h, by simp [c₀, B, Machine.attach], fun h => absurd h Bool.false_ne_true⟩
  have hz : regionSize n / 4 * 4 = regionSize n := by
    have := regionSize_aligned n
    omega
  have hBn : (B.recast c₀).region.bytes.size = regionSize n := by
    simp only [B, Machine.recast, Machine.attach, Machine.blank, Region.size_zeroed, hz]
  -- from the machine and from that blank machine laying out steps alike
  have hagree := @layOut_agree m (B.recast c₀) hs (hn.trans hBn.symm) (by
    simp only [Machine.BelowLayout, Machine.overlay, B, c₀, Machine.recast, Machine.attach,
      Machine.blank, hs, hn, Region.size_zeroed, hz, Sink.after_replicate])
  have hrun := layOut_unaware B c₀ hc₀
  rw [show layOut.run B = _ from layOut_detached (Machine.blank n s) m.disk m.sink,
    layOut_blank_of_created hc] at hrun
  cases h₁ : layOut.run (B.recast c₀) <;> rw [h₁] at hrun hagree
  case ok u y =>
    obtain ⟨-, c, hc', hw, rfl⟩ := hrun
    cases h₂ : layOut.run m <;> rw [h₂] at hagree
    case ok u' y' =>
      obtain ⟨-, rfl⟩ := hagree
      exact ⟨c, hc', hw, rfl⟩
    case error => exact hagree.elim
  case error => exact hrun.elim

/-- A reset first writes the updated blocks back, if the machine has a cache, then lays out. -/
theorem reset_run (m : Machine) :
    reset.run m =
      match (if m.cache.isSome then withCache Cache.flush else pure () : Vm Unit).run m with
      | .ok _ m₁ => layOut.run m₁
      | .error e m₁ => .error e m₁ := by
  simp only [reset, EStateM.run_bind, EStateM.run_get]
  split
  · rw [EStateM.run_bind]
    cases (withCache Cache.flush).run m <;> rfl
  · rfl

/-- The write-back a reset starts with keeps the settings, the region's size and the channels. -/
theorem Fixture.Holds.writeBack {g : Fixture} {m : Machine} (h : g.Holds m) :
    g.Holds (Vm.ended ((if m.cache.isSome then withCache Cache.flush else pure () : Vm Unit).run m)) :=
  Fixture.fixed_run (by
    split
    · exact Fixture.withCache_fixed _ _
    · exact fun _ h => h) h

/-- A reset that succeeds on a machine reached from a creation that succeeded leaves the
created machine, on the device and the channels it has, up to leftovers that fit it, with no
earlier output. -/
theorem reset_created {n : Nat} {s : Settings} (hc : (Machine.create n s).2 = none)
    {m m' : Machine} (hm : (Fixture.created n s).Holds m) (h : reset.run m = .ok () m') :
    ∃ c, c.Fits false ((Machine.create n s).1.attach m'.disk m'.sink) ∧
      c.written = List.replicate m'.sink.channels.length ByteArray.empty ∧
      m' = ((Machine.create n s).1.attach m'.disk m'.sink).recast c := by
  rw [reset_run] at h
  have hm₁ := hm.writeBack
  split at h
  · rename_i m₁ heq
    rw [heq] at hm₁
    change (Fixture.created n s).Holds m₁ at hm₁
    obtain ⟨c, hc', hw, hl⟩ := layOut_created hc hm₁
    rw [hl] at h
    cases h
    -- nothing was written before the laid-out machine's channels, so they are the machine's
    have hsink : (((Machine.create n s).1.attach m₁.disk m₁.sink).recast c).sink = m₁.sink := by
      simp only [Machine.recast, Machine.attach, hw, Sink.after_replicate]
    rw [hsink]
    exact ⟨c, hc', hw, rfl⟩
  · cases h

/-- A reset that fails on a machine reached from a creation that succeeded fails in its
write-back: laying out such a machine always succeeds. -/
theorem reset_error_created {n : Nat} {s : Settings} (hc : (Machine.create n s).2 = none)
    {m m' : Machine} {e : MachineError} (hm : (Fixture.created n s).Holds m)
    (h : reset.run m = .error e m') :
    (if m.cache.isSome then withCache Cache.flush else pure () : Vm Unit).run m = .error e m' := by
  rw [reset_run] at h
  have hm₁ := hm.writeBack
  split at h
  · rename_i m₁ heq
    rw [heq] at hm₁
    change (Fixture.created n s).Holds m₁ at hm₁
    obtain ⟨c, -, -, hl⟩ := layOut_created hc hm₁
    rw [hl] at h
    cases h
  · rename_i heq
    cases h
    exact heq

/-- Leftovers with no earlier output leave the machine's channels as they are. -/
theorem Machine.sink_recast_replicate {z : Machine} {c : Leftover} {b : Bool} (hc : c.Fits b z)
    {k : Nat} (hw : c.written = List.replicate k ByteArray.empty) : (z.recast c).sink = z.sink := by
  have hk : k = z.sink.channels.length := by
    rw [← hc.written, hw, List.length_replicate]
  simp only [Machine.recast, hw, hk, Sink.after_replicate]

/-! ## A reset is a fresh start -/

/-- A reset of any machine a session reaches from a creation that succeeded is a fresh start.
If it succeeds, it leaves the created machine on the device and the channels the machine has
now, up to leftovers: the region's bytes, the cursors, the empty stacks, the mode, the base, the
cache and the primitive table are the created machine's. From there every session gets the same
answers as on that created machine and leaves the same channels. If it fails, it failed in
writing back an updated block, and the machine is as it was but for the cache and the device. -/
theorem reset_fresh_start {n : Nat} {s : Settings} (hc : (Machine.create n s).2 = none)
    (calls : List HostCall) :
    let m := (Machine.create n s).1.performAll calls
    (∀ m', reset.run m = .ok () m' →
      let fresh := (Machine.create n s).1.attach m'.disk m'.sink
      (∃ c, c.Fits false fresh ∧ m' = fresh.recast c) ∧
        ∀ later, m'.replies later = fresh.replies later ∧
          (m'.performAll later).sink = (fresh.performAll later).sink) ∧
    (∀ e m', reset.run m = .error e m' →
      ∃ c ce st, m.cache = some c ∧
        (Cache.flush : CacheM Disk Unit).run (⟨m.loadSlot c.active, m.loadSlot c.older⟩, m.disk) =
          .error ce st ∧
        e = .block ce ∧ m' = { m with cache := some st.1, disk := st.2 }) := by
  intro m
  have hm : (Fixture.created n s).Holds m := (Fixture.holds_create n s).performAll calls
  have hfull : m.BuffersFull := (Machine.buffersFull_create n s).performAll calls
  refine ⟨fun m' h => ?_, fun e m' h => ?_⟩
  · obtain ⟨c, hc', hw, hm'⟩ := reset_created hc hm h
    refine ⟨⟨c, hc', hm'⟩, fun later => ?_⟩
    -- a session from the reset machine is one from the created machine, recast
    obtain ⟨hr, c', hc'', hw', hp⟩ := Machine.performAll_recast hc' later
    have hr' := congrArg (fun z => z.replies later) hm'
    have hp' := congrArg (fun z => (z.performAll later).sink) hm'
    refine ⟨hr'.trans hr, hp'.trans ?_⟩
    rw [hp]
    exact Machine.sink_recast_replicate hc'' (hw'.trans hw)
  · have hw := reset_error_created hc hm h
    split at hw
    · rename_i hsome
      obtain ⟨c, hcache⟩ := Option.isSome_iff_exists.mp hsome
      obtain ⟨ce, st, hrun, he, hm'⟩ := withCache_flush_error hfull hcache hw
      exact ⟨c, ce, st, hcache, hrun, he, hm'⟩
    · cases hw

/-- A reset right after creating a machine of 64 KiB with the default settings. -/
theorem reset_fresh_start_default :
    (Machine.create 65536 {}).2 = none ∧
      let m := (Machine.create 65536 {}).1.performAll []
      (∀ m', reset.run m = .ok () m' →
        let fresh := (Machine.create 65536 {}).1.attach m'.disk m'.sink
        (∃ c, c.Fits false fresh ∧ m' = fresh.recast c) ∧
          ∀ later, m'.replies later = fresh.replies later ∧
            (m'.performAll later).sink = (fresh.performAll later).sink) ∧
      (∀ e m', reset.run m = .error e m' →
        ∃ c ce st, m.cache = some c ∧
          (Cache.flush : CacheM Disk Unit).run (⟨m.loadSlot c.active, m.loadSlot c.older⟩, m.disk) =
            .error ce st ∧
          e = .block ce ∧ m' = { m with cache := some st.1, disk := st.2 }) :=
  have hc := create_succeeds 65536 {} (by unfold Settings.SizesFit; decide)
    (by unfold Settings.Checked; decide) (by decide) (by decide)
    (by unfold Primitive.Installable; decide +kernel)
  ⟨hc, reset_fresh_start hc []⟩

end ForthMachine
