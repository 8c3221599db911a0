import Mathlib.Data.List.Basic
import ForthMachine.Proofs.Partition
import ForthMachine.Machine.Library
import ForthMachine.Machine.Vocabulary
import ForthMachine.Machine.Layout
/-!
# The stack words

The data stack of a laid-out machine read as a list of cells, bottom first, and the words of
the builtin library that rearrange it: `dup`, `drop`, `swap`, `over`, `rot`, `-rot`, `nip`,
`tuck`, `?dup`, `pick`, `2dup`, `2drop`, `2swap` and `2over`.

`Machine.DataHolds m L xs` says that `m` lies where the layout `L` puts it and that its data
stack holds `xs`. Every stack operation is stated once against it: a pop, a push, a peek, a
run of pops (`popN`), a run of pushes (`pushAll`) and a drop, each with the condition under
which it underflows or overflows. The words are then a few lines each.

Main statement: `stack_words_effects`. Each stack word is in the library under its name; on
a stack of at least its arity whose result fits the data stack's capacity, it replaces its
top cells by the standard Forth effect (`rot ( a b c -- b c a )`, …) and leaves the cells
below alone; with fewer cells it underflows and changes nothing, and with no room it
overflows. `pick ( x_u … x_0 u -- x_u … x_0 x_u )` underflows on a negative or too large
index and never overflows.
-/

namespace ForthMachine

open ForthMachine.Memory

/-- The data stack of a machine that lies where the layout `L` puts it holds `xs`, bottom
first. -/
structure Machine.DataHolds (m : Machine) (L : Layout) (xs : List UInt32) : Prop where
  sane : m.Sane L
  named : (m.stack .data).name = .data
  cells : m.cells .data = xs

/-- The data stack's partition lies in a region of at most 16 MiB, so its capacity is far
below `2 ^ 32`. -/
theorem Layout.dataCap_le (L : Layout) : L.dataCap ≤ 2 ^ 22 := by
  have := L.fills
  have := L.size_le
  unfold maxRegion at this
  omega

theorem pushAll_cons (v : UInt32) (vs : List UInt32) :
    pushAll (v :: vs) = (do push .data v; pushAll vs) := rfl

namespace Machine.DataHolds

variable {m : Machine} {L : Layout} {xs ys : List UInt32}

theorem depth_toNat (h : m.DataHolds L xs) : (m.stack .data).depth.toNat = xs.length := by
  rw [← h.cells, Machine.cells_def, Stack.cells_length]

theorem cap_toNat (h : m.DataHolds L xs) : (m.stack .data).cap.toNat = L.dataCap := by
  simpa [Layout.cap] using h.sane.cap .data

theorem length_le (h : m.DataHolds L xs) : xs.length ≤ L.dataCap := by
  rw [← h.depth_toNat, ← h.cap_toNat]
  exact UInt32.le_iff_toNat_le.mp (h.sane.stack_fits .data).depth_le

theorem pop_ok (h : m.DataHolds L (xs ++ [v])) :
    ∃ m', (pop .data).run m = .ok v m' ∧ m'.DataHolds L xs := by
  have hd : 0 < (m.stack .data).depth :=
    UInt32.lt_iff_toNat_lt.mpr (by rw [h.depth_toNat]; simp)
  have hr := h.sane.pop_run_of_pos hd
  obtain ⟨hc, -⟩ := h.sane.cells_pop hr
  obtain ⟨hxs, hv⟩ := List.append_inj' (hc.symm.trans h.cells) rfl
  exact ⟨_, by rw [hr, List.singleton_inj.mp hv], h.sane.pop_sane (by decide) hr, h.named, hxs⟩

theorem push_ok (h : m.DataHolds L xs) (hlt : xs.length < L.dataCap) (v : UInt32) :
    ∃ m', (push .data v).run m = .ok () m' ∧ m'.DataHolds L (xs ++ [v]) := by
  have hd : (m.stack .data).depth < (m.stack .data).cap :=
    UInt32.lt_iff_toNat_lt.mpr (by rw [h.depth_toNat, h.cap_toNat]; exact hlt)
  have hr := h.sane.push_run_of_lt hd v
  refine ⟨_, hr, h.sane.push (by decide) hr, h.named, ?_⟩
  rw [(h.sane.cells_push hr).1, h.cells]

theorem push_overflow (h : m.DataHolds L xs) (hfull : L.dataCap ≤ xs.length) (v : UInt32) :
    (push .data v).run m = .error (.stack ⟨.data, .overflow⟩) m := by
  have hf : (m.stack .data).full = true := by
    simp only [Stack.full, decide_eq_true_eq]
    exact UInt32.le_iff_toNat_le.mpr (by rw [h.depth_toNat, h.cap_toNat]; exact hfull)
  rw [push_run, if_pos hf, Stack.err, h.named]

theorem peek_ok (h : m.DataHolds L xs) {n : UInt32} (hn : n.toNat < xs.length) :
    (peek .data n).run m = .ok (xs.getD (xs.length - 1 - n.toNat) 0) m := by
  have hlt : n < (m.stack .data).depth :=
    UInt32.lt_iff_toNat_lt.mpr (by rw [h.depth_toNat]; exact hn)
  rw [h.sane.peek_run_of_lt hlt, h.cells, h.depth_toNat]

theorem peek_underflow (h : m.DataHolds L xs) {n : UInt32} (hn : xs.length ≤ n.toNat) :
    (peek .data n).run m = .error (.stack ⟨.data, .underflow⟩) m := by
  have hge : ¬ n < (m.stack .data).depth := fun hlt => by
    have := UInt32.lt_iff_toNat_lt.mp hlt
    rw [h.depth_toNat] at this
    omega
  rw [peek_run, Stack.slot, if_neg hge, Stack.err, h.named]

theorem pop_underflow (h : m.DataHolds L []) :
    (pop .data).run m = .error (.stack ⟨.data, .underflow⟩) m := by
  simp only [pop, EStateM.run_bind, h.peek_underflow (show [].length ≤ (0 : UInt32).toNat by simp)]

/-- The loop of `popN`: each pass pops the top cell and puts it in front of the cells popped
so far, so as many passes as `ys` has cells return `ys` in front of what was there. -/
theorem popLoop_ok (is : List Nat) :
    ∀ {m : Machine} {xs ys : List UInt32} (acc : List UInt32), m.DataHolds L (xs ++ ys) →
      ys.length = is.length →
      ∃ m', (is.foldlM (fun acc _ => do return (← pop .data) :: acc) acc).run m =
        .ok (ys ++ acc) m' ∧ m'.DataHolds L xs := by
  induction is with
  | nil =>
    intro m xs ys acc h hlen
    obtain rfl : ys = [] := List.length_eq_zero_iff.mp hlen
    rw [List.append_nil] at h
    exact ⟨m, rfl, h⟩
  | cons i is ih =>
    intro m xs ys acc h hlen
    -- the first pass pops the last of `ys`
    obtain ⟨ys', y, rfl⟩ : ∃ ys' y, ys = ys' ++ [y] := by
      rcases List.eq_nil_or_concat ys with rfl | ⟨ys', y, rfl⟩
      · simp at hlen
      · exact ⟨ys', y, by simp⟩
    rw [← List.append_assoc] at h
    obtain ⟨m₁, hr₁, h₁⟩ := h.pop_ok
    obtain ⟨m', hr, h'⟩ := ih (y :: acc) h₁ (by simpa using hlen)
    refine ⟨m', ?_, h'⟩
    simp only [List.foldlM_cons, EStateM.run_bind, hr₁, EStateM.run_pure]
    simpa using hr

theorem popN_ok (h : m.DataHolds L (xs ++ ys)) :
    ∃ m', (popN ys.length).run m = .ok ys m' ∧ m'.DataHolds L xs := by
  have hd : m.data.depth.toNat = (xs ++ ys).length := h.depth_toNat
  have hcap := h.length_le.trans L.dataCap_le
  have hge : ¬ m.data.depth < ys.length.toUInt32 := fun hlt => by
    have := UInt32.lt_iff_toNat_lt.mp hlt
    simp only [List.length_append] at hd hcap
    simp only [Nat.toUInt32, UInt32.toNat_ofNat'] at this
    omega
  obtain ⟨m', hr, h'⟩ := popLoop_ok (List.range ys.length) [] h (by simp)
  refine ⟨m', ?_, h'⟩
  simp only [popN, EStateM.run_bind, EStateM.run_get, if_neg hge]
  simpa using hr

theorem popN_underflow (h : m.DataHolds L xs) {n : Nat} (hn : xs.length < n) (hn' : n < 2 ^ 32) :
    (popN n).run m = .error (.stack ⟨.data, .underflow⟩) m := by
  have hd : m.data.depth.toNat = xs.length := h.depth_toNat
  have hlt : m.data.depth < n.toUInt32 := UInt32.lt_iff_toNat_lt.mpr (by
    simp only [Nat.toUInt32, UInt32.toNat_ofNat']
    omega)
  simp only [popN, EStateM.run_bind, EStateM.run_get, if_pos hlt]
  rfl

theorem pushAll_ok (vs : List UInt32) :
    ∀ {m : Machine} {xs : List UInt32}, m.DataHolds L xs → xs.length + vs.length ≤ L.dataCap →
      ∃ m', (pushAll vs).run m = .ok () m' ∧ m'.DataHolds L (xs ++ vs) := by
  induction vs with
  | nil =>
    intro m xs h _
    exact ⟨m, rfl, by simpa using h⟩
  | cons v vs ih =>
    intro m xs h hfit
    simp only [List.length_cons] at hfit
    obtain ⟨m₁, hr₁, h₁⟩ := h.push_ok (by omega) v
    obtain ⟨m', hr, h'⟩ := ih h₁ (by simp only [List.length_append, List.length_singleton]; omega)
    refine ⟨m', ?_, by simpa using h'⟩
    rw [pushAll_cons, EStateM.run_bind, hr₁]
    exact hr

theorem pushAll_overflow (vs : List UInt32) :
    ∀ {m : Machine} {xs : List UInt32}, m.DataHolds L xs → L.dataCap < xs.length + vs.length →
      ∃ m', (pushAll vs).run m = .error (.stack ⟨.data, .overflow⟩) m' := by
  induction vs with
  | nil =>
    intro m xs h hover
    have := h.length_le
    simp only [List.length_nil] at hover
    omega
  | cons v vs ih =>
    intro m xs h hover
    by_cases hroom : xs.length < L.dataCap
    · -- room for `v`: the overflow comes later
      obtain ⟨m₁, hr₁, h₁⟩ := h.push_ok hroom v
      obtain ⟨m', hr⟩ := ih h₁ (by simp only [List.length_append,
        List.length_cons] at hover ⊢; omega)
      refine ⟨m', ?_⟩
      rw [pushAll_cons, EStateM.run_bind, hr₁]
      exact hr
    · refine ⟨m, ?_⟩
      rw [pushAll_cons, EStateM.run_bind, h.push_overflow (by omega) v]

theorem dropCells_ok (h : m.DataHolds L (xs ++ ys)) :
    ∃ m', (dropCells .data ys.length.toUInt32).run m = .ok () m' ∧ m'.DataHolds L xs := by
  have hd := h.depth_toNat
  have hcap := h.length_le.trans L.dataCap_le
  simp only [List.length_append] at hd hcap
  have hys : ys.length.toUInt32.toNat = ys.length := by
    simp only [Nat.toUInt32, UInt32.toNat_ofNat']
    omega
  have hn : ys.length.toUInt32 ≤ (m.stack .data).depth :=
    UInt32.le_iff_toNat_le.mpr (by omega)
  have hr := (dropCells_run m .data ys.length.toUInt32).trans (if_pos hn)
  refine ⟨_, hr, h.sane.dropCells_sane (by decide) hr, h.named, ?_⟩
  rw [(cells_dropCells hr).1, h.cells, hys, List.length_append, Nat.add_sub_cancel,
    List.take_left]

theorem dropCells_underflow (h : m.DataHolds L xs) {n : Nat} (hn : xs.length < n)
    (hn' : n < 2 ^ 32) :
    (dropCells .data n.toUInt32).run m = .error (.stack ⟨.data, .underflow⟩) m := by
  have hd := h.depth_toNat
  have hgt : ¬ n.toUInt32 ≤ (m.stack .data).depth := fun hle => by
    have := UInt32.le_iff_toNat_le.mp hle
    simp only [Nat.toUInt32, UInt32.toNat_ofNat'] at this
    omega
  rw [dropCells_run, if_neg hgt, Stack.err, h.named]

end Machine.DataHolds

/-- A cell below `2 ^ 31` reads as itself. -/
theorem Cell.toInt_of_toNat_lt {u : UInt32} (h : u.toNat < 2 ^ 31) : Cell.toInt u = u.toNat := by
  unfold Cell.toInt
  rw [if_pos (by omega)]

/-- A cell that reads as a natural number is that number's cell. -/
theorem Cell.toUInt32_toNat_toInt {u : UInt32} (h : 0 ≤ Cell.toInt u) :
    (Cell.toInt u).toNat.toUInt32 = u := by
  have hlt : u.toNat < 2 ^ 31 := by
    have hsize : u.toNat < 4294967296 := u.toNat_lt_size
    by_contra hge
    unfold Cell.toInt at h
    rw [if_neg (by omega)] at h
    omega
  rw [Cell.toInt_of_toNat_lt hlt, Int.toNat_natCast]
  exact UInt32.ofNat_toNat

/-! ## Shuffles -/

section Shuffle

variable {m : Machine} {L : Layout} {xs ys : List UInt32}

/-- A shuffle of a stack of at least its arity pops that many cells and pushes back those its
table names, bottom first. -/
theorem shuffleCells_ok (h : m.DataHolds L (xs ++ ys)) (perm : List Nat)
    (hfit : xs.length + perm.length ≤ L.dataCap) :
    ∃ m', (shuffleCells ys.length perm).run m = .ok () m' ∧
      m'.DataHolds L (xs ++ perm.map (ys.getD · 0)) := by
  obtain ⟨m₁, hr₁, h₁⟩ := h.popN_ok
  obtain ⟨m', hr, h'⟩ := h₁.pushAll_ok (perm.map (ys.getD · 0)) (by simpa using hfit)
  refine ⟨m', ?_, h'⟩
  simp only [shuffleCells, EStateM.run_bind, hr₁]
  exact hr

theorem shuffleCells_overflow (h : m.DataHolds L (xs ++ ys)) (perm : List Nat)
    (hover : L.dataCap < xs.length + perm.length) :
    ∃ m', (shuffleCells ys.length perm).run m = .error (.stack ⟨.data, .overflow⟩) m' := by
  obtain ⟨m₁, hr₁, h₁⟩ := h.popN_ok
  obtain ⟨m', hr⟩ := h₁.pushAll_overflow (perm.map (ys.getD · 0)) (by simpa using hover)
  refine ⟨m', ?_⟩
  simp only [shuffleCells, EStateM.run_bind, hr₁]
  exact hr

theorem shuffleCells_underflow (h : m.DataHolds L xs) {n : Nat} (hn : xs.length < n)
    (hn' : n < 2 ^ 32) (perm : List Nat) :
    (shuffleCells n perm).run m = .error (.stack ⟨.data, .underflow⟩) m := by
  simp only [shuffleCells, EStateM.run_bind, h.popN_underflow hn hn']

end Shuffle

/-! ## The words and their effects -/

/-- The stack words that take a fixed number of cells from the top of the data stack. -/
inductive StackWord where
  | dup | drop | swap | overCell | rot | minusRot | nip | tuck | qdup
  | twoDup | twoDrop | twoSwap | twoOver
  deriving DecidableEq, Repr

namespace StackWord

/-- The word's name in the dictionary. -/
def name : StackWord → String
  | dup => "dup"
  | drop => "drop"
  | swap => "swap"
  | overCell => "over"
  | rot => "rot"
  | minusRot => "-rot"
  | nip => "nip"
  | tuck => "tuck"
  | qdup => "?dup"
  | twoDup => "2dup"
  | twoDrop => "2drop"
  | twoSwap => "2swap"
  | twoOver => "2over"

/-- How many cells the word takes from the top of the stack. -/
def arity : StackWord → Nat
  | dup | drop | qdup => 1
  | swap | overCell | nip | tuck | twoDup | twoDrop => 2
  | rot | minusRot => 3
  | twoSwap | twoOver => 4

theorem arity_le (w : StackWord) : w.arity ≤ 4 := by
  cases w <;> decide

/-- The standard Forth effect on the word's top cells, bottom first: `rot ( a b c -- b c a )`
turns `[a, b, c]` into `[b, c, a]`. Cells of another number are left as they are. -/
def effect : StackWord → List UInt32 → List UInt32
  | dup, [a] => [a, a]
  | drop, [_] => []
  | swap, [a, b] => [b, a]
  | overCell, [a, b] => [a, b, a]
  | rot, [a, b, c] => [b, c, a]
  | minusRot, [a, b, c] => [c, a, b]
  | nip, [_, b] => [b]
  | tuck, [a, b] => [b, a, b]
  | qdup, [a] => if a = 0 then [a] else [a, a]
  | twoDup, [a, b] => [a, b, a, b]
  | twoDrop, [_, _] => []
  | twoSwap, [a, b, c, d] => [c, d, a, b]
  | twoOver, [a, b, c, d] => [a, b, c, d, a, b]
  | _, ys => ys

/-- On a machine laid out by `L` whose data stack holds `xs`, the library word `act` acts as
the stack word `w`: with fewer cells than `w` takes it underflows and changes nothing;
otherwise it replaces the top cells by `w`'s effect, leaving the cells below, when the result
fits the capacity, and overflows when it does not. -/
structure Acts (w : StackWord) (act : LibraryWord) (m : Machine) (L : Layout)
    (xs : List UInt32) : Prop where
  underflow : xs.length < w.arity → act.run.run m = .error (.stack ⟨.data, .underflow⟩) m
  replaces : ∀ pre ys, xs = pre ++ ys → ys.length = w.arity →
    ((pre ++ w.effect ys).length ≤ L.dataCap →
      ∃ m', act.run.run m = .ok () m' ∧ m'.DataHolds L (pre ++ w.effect ys)) ∧
    (L.dataCap < (pre ++ w.effect ys).length →
      ∃ m', act.run.run m = .error (.stack ⟨.data, .overflow⟩) m')

variable {m : Machine} {L : Layout} {xs : List UInt32}

/-- A shuffle whose table gives `w`'s effect acts as `w`. -/
theorem acts_shuffle (h : m.DataHolds L xs) {w : StackWord} (perm : List Nat)
    (hw : ∀ ys : List UInt32, ys.length = w.arity → perm.map (ys.getD · 0) = w.effect ys) :
    w.Acts (.shuffle w.arity perm) m L xs := by
  refine ⟨fun hlt => shuffleCells_underflow h hlt (by have := w.arity_le; omega) perm,
    fun pre ys hxs hys => ?_⟩
  subst hxs
  have hrun : (LibraryWord.shuffle w.arity perm).run = shuffleCells ys.length perm := by
    rw [hys]
    rfl
  rw [hrun, ← hw ys hys, List.length_append, List.length_map]
  exact ⟨fun hfit => shuffleCells_ok h perm hfit, fun hover => shuffleCells_overflow h perm hover⟩

/-- A drop of as many cells as `w` takes acts as `w`, if `w` leaves nothing of them. -/
theorem acts_drop (h : m.DataHolds L xs) {w : StackWord}
    (hw : ∀ ys : List UInt32, ys.length = w.arity → w.effect ys = []) :
    w.Acts (.drop w.arity) m L xs := by
  refine ⟨fun hlt => h.dropCells_underflow hlt (by have := w.arity_le; omega),
    fun pre ys hxs hys => ?_⟩
  subst hxs
  rw [hw ys hys, List.append_nil]
  refine ⟨fun _ => ?_, fun hover => ?_⟩
  · rw [← hys]
    exact h.dropCells_ok
  · -- fewer cells than were there always fit
    have := h.length_le
    simp only [List.length_append] at this
    omega

theorem acts_qdup (h : m.DataHolds L xs) : qdup.Acts .qdup m L xs := by
  refine ⟨fun hlt => ?_, fun pre ys hxs hys => ?_⟩
  · have h0 : xs.length ≤ (0 : UInt32).toNat := by
      simp only [arity, UInt32.toNat_zero] at hlt ⊢
      omega
    simp only [LibraryWord.run, EStateM.run_bind, h.peek_underflow h0]
  · obtain ⟨a, rfl⟩ := List.length_eq_one_iff.mp hys
    subst hxs
    have hpeek : (peek .data 0).run m = .ok a m := by
      rw [h.peek_ok (by simp)]
      simp
    by_cases ha : a = 0
    · -- a zero is left alone, so nothing is pushed
      subst ha
      simp only [effect, if_true]
      refine ⟨fun _ => ⟨m, ?_, h⟩, fun hover => absurd h.length_le (by omega)⟩
      simp only [LibraryWord.run, EStateM.run_bind, hpeek]
      rfl
    · simp only [effect, ha, if_false]
      refine ⟨fun hfit => ?_, fun hover => ⟨m, ?_⟩⟩
      · have hroom : (pre ++ [a]).length < L.dataCap := by
          simp only [List.length_append, List.length_cons, List.length_nil] at hfit ⊢
          omega
        obtain ⟨m', hr, h'⟩ := h.push_ok hroom a
        refine ⟨m', ?_, by simpa using h'⟩
        simp only [LibraryWord.run, EStateM.run_bind, hpeek, ne_eq, ha, not_false_eq_true, if_true]
        exact hr
      · have hfull : L.dataCap ≤ (pre ++ [a]).length := by
          have := h.length_le
          simp only [List.length_append, List.length_cons, List.length_nil] at hover this ⊢
          omega
        simp only [LibraryWord.run, EStateM.run_bind, hpeek, ne_eq, ha, not_false_eq_true,
          if_true, h.push_overflow hfull a]

end StackWord

/-- On a machine laid out by `L` whose data stack holds `xs`, the library word `act` acts as
`pick ( x_u … x_0 u -- x_u … x_0 x_u )`: it copies the cell `u` below the one under the index
onto the top; it underflows on an empty stack, and on a negative index or one that reaches
below the bottom; it never overflows, since the copy takes the index's place. -/
structure PickActs (act : LibraryWord) (m : Machine) (L : Layout) (xs : List UInt32) :
    Prop where
  copies : ∀ pre x ys u, xs = pre ++ x :: ys ++ [u] → u.toNat = ys.length →
    ∃ m', act.run.run m = .ok () m' ∧ m'.DataHolds L (pre ++ x :: ys ++ [x])
  bad_index : ∀ s u, xs = s ++ [u] → (Cell.toInt u < 0 ∨ s.length ≤ u.toNat) →
    ∃ m', act.run.run m = .error (.stack ⟨.data, .underflow⟩) m'
  empty : xs = [] → act.run.run m = .error (.stack ⟨.data, .underflow⟩) m

section Pick

variable {m : Machine} {L : Layout} {xs : List UInt32}

theorem pickActs_pick (h : m.DataHolds L xs) : PickActs .pick m L xs := by
  refine ⟨fun pre x ys u hxs hu => ?_, fun s u hxs hbad => ?_, fun hxs => ?_⟩
  · subst hxs
    have hlen := h.length_le.trans L.dataCap_le
    simp only [List.length_append, List.length_cons] at hlen
    obtain ⟨m₁, hr₁, h₁⟩ := h.pop_ok
    have hi : 0 ≤ Cell.toInt u := by rw [Cell.toInt_of_toNat_lt (by omega)]; omega
    have hpeek : (peek .data u).run m₁ = .ok x m₁ := by
      rw [h₁.peek_ok (by simp; omega)]
      simp [hu, List.getD_eq_getElem?_getD]
    obtain ⟨m', hr, h'⟩ := h₁.push_ok (by have := h.length_le; simp at this ⊢; omega) x
    refine ⟨m', ?_, h'⟩
    simp only [LibraryWord.run, EStateM.run_bind, hr₁, if_neg (Int.not_lt.mpr hi),
      Cell.toUInt32_toNat_toInt hi, hpeek]
    exact hr
  · subst hxs
    obtain ⟨m₁, hr₁, h₁⟩ := h.pop_ok
    refine ⟨m₁, ?_⟩
    by_cases hi : Cell.toInt u < 0
    · simp only [LibraryWord.run, EStateM.run_bind, hr₁, if_pos hi]
      rfl
    · -- a natural index that reaches below the bottom
      simp only [LibraryWord.run, EStateM.run_bind, hr₁, if_neg hi,
        Cell.toUInt32_toNat_toInt (Int.not_lt.mp hi), h₁.peek_underflow (hbad.resolve_left hi)]
  · subst hxs
    simp only [LibraryWord.run, EStateM.run_bind, h.pop_underflow]

end Pick

/-- The stack words of the builtin library, on every laid-out machine: each is in the library
under its name and has its standard Forth effect on the data stack, and so has `pick`. -/
theorem stack_words_effects {m : Machine} {L : Layout} {xs : List UInt32}
    (h : m.DataHolds L xs) :
    (∀ w : StackWord, ∃ act, Primitive.named w.name 0 (.library act) ∈ builtinLibrary ∧
      w.Acts act m L xs) ∧
    ∃ act, Primitive.named "pick" 0 (.library act) ∈ builtinLibrary ∧ PickActs act m L xs := by
  refine ⟨fun w => ?_, _, List.mem_iff_getElem?.mpr ⟨9, rfl⟩, pickActs_pick h⟩
  -- each word's entry of the table, whose shuffle is checked against the effect on cells
  -- of the word's arity
  cases w with
  | dup =>
    refine ⟨_, List.mem_iff_getElem?.mpr ⟨0, rfl⟩, StackWord.acts_shuffle h _ fun ys hys => ?_⟩
    obtain ⟨a, rfl⟩ := List.length_eq_one_iff.mp hys
    rfl
  | drop =>
    refine ⟨_, List.mem_iff_getElem?.mpr ⟨1, rfl⟩, StackWord.acts_drop h fun ys hys => ?_⟩
    obtain ⟨a, rfl⟩ := List.length_eq_one_iff.mp hys
    rfl
  | swap =>
    refine ⟨_, List.mem_iff_getElem?.mpr ⟨2, rfl⟩, StackWord.acts_shuffle h _ fun ys hys => ?_⟩
    obtain ⟨a, b, rfl⟩ := List.length_eq_two.mp hys
    rfl
  | overCell =>
    refine ⟨_, List.mem_iff_getElem?.mpr ⟨3, rfl⟩, StackWord.acts_shuffle h _ fun ys hys => ?_⟩
    obtain ⟨a, b, rfl⟩ := List.length_eq_two.mp hys
    rfl
  | rot =>
    refine ⟨_, List.mem_iff_getElem?.mpr ⟨4, rfl⟩, StackWord.acts_shuffle h _ fun ys hys => ?_⟩
    obtain ⟨a, b, c, rfl⟩ := List.length_eq_three.mp hys
    rfl
  | minusRot =>
    refine ⟨_, List.mem_iff_getElem?.mpr ⟨5, rfl⟩, StackWord.acts_shuffle h _ fun ys hys => ?_⟩
    obtain ⟨a, b, c, rfl⟩ := List.length_eq_three.mp hys
    rfl
  | nip =>
    refine ⟨_, List.mem_iff_getElem?.mpr ⟨6, rfl⟩, StackWord.acts_shuffle h _ fun ys hys => ?_⟩
    obtain ⟨a, b, rfl⟩ := List.length_eq_two.mp hys
    rfl
  | tuck =>
    refine ⟨_, List.mem_iff_getElem?.mpr ⟨7, rfl⟩, StackWord.acts_shuffle h _ fun ys hys => ?_⟩
    obtain ⟨a, b, rfl⟩ := List.length_eq_two.mp hys
    rfl
  | qdup => exact ⟨_, List.mem_iff_getElem?.mpr ⟨8, rfl⟩, StackWord.acts_qdup h⟩
  | twoDup =>
    refine ⟨_, List.mem_iff_getElem?.mpr ⟨11, rfl⟩, StackWord.acts_shuffle h _ fun ys hys => ?_⟩
    obtain ⟨a, b, rfl⟩ := List.length_eq_two.mp hys
    rfl
  | twoDrop =>
    refine ⟨_, List.mem_iff_getElem?.mpr ⟨12, rfl⟩, StackWord.acts_drop h fun ys hys => ?_⟩
    obtain ⟨a, b, rfl⟩ := List.length_eq_two.mp hys
    rfl
  | twoSwap =>
    refine ⟨_, List.mem_iff_getElem?.mpr ⟨13, rfl⟩, StackWord.acts_shuffle h _ fun ys hys => ?_⟩
    obtain ⟨a, b, c, d, rfl⟩ := List.length_eq_four.mp hys
    rfl
  | twoOver =>
    refine ⟨_, List.mem_iff_getElem?.mpr ⟨14, rfl⟩, StackWord.acts_shuffle h _ fun ys hys => ?_⟩
    obtain ⟨a, b, c, d, rfl⟩ := List.length_eq_four.mp hys
    rfl

/-- A layout of 40 bytes: the first two cells, then a return stack of one cell, a control stack
of two and a data stack of five. -/
def Layout.small : Layout where
  size := 40
  dictLimit := 8
  dataLimit := 8
  retCap := 1
  controlCap := 2
  dataCap := 5
  size_le := by decide
  dictLimit_ge := Nat.le_refl 8
  dictLimit_le := Nat.le_refl 8
  dataLimit_aligned := rfl
  controlCap_even := rfl
  fills := rfl

/-- A machine laid out by `Layout.small` whose data stack holds `a` under `b`. -/
def Machine.withPair (a b : UInt32) : Machine :=
  { Machine.blank 40 {} with
    region := ((Region.zeroed 40).writeAt 20 (bytesOfCell a)).writeAt 24 (bytesOfCell b)
    dictLimit := 8
    dataLimit := 8
    ret := ⟨.ret, 8, 1, 0⟩
    control := ⟨.control, 12, 2, 0⟩
    data := ⟨.data, 20, 5, 2⟩ }

theorem Machine.withPair_dataHolds (a b : UInt32) :
    (Machine.withPair a b).DataHolds Layout.small [a, b] where
  sane :=
    { size := by simp [Machine.withPair, Machine.shape, Layout.small]
      dictLimit := rfl
      dataLimit := rfl
      base := fun st => by cases st <;> rfl
      cap := fun st => by cases st <;> rfl
      depth_le := fun st => by
        cases st with
        | data => exact (show (2 : UInt32) ≤ 5 by decide)
        | ret => exact (show (0 : UInt32) ≤ 1 by decide)
        | control => exact (show (0 : UInt32) ≤ 2 by decide)
      here_ge := show 8 ≤ (8 : UInt32).toNat by decide
      here_le := show (8 : UInt32).toNat ≤ 8 by decide
      here_aligned := show (8 : UInt32).toNat % 4 = 0 by decide
      latest := .inl rfl
      opened := fun h => absurd rfl h
      control_even := show (0 : UInt32).toNat % 2 = 0 by decide
      fixups := fun i hi => by
        simp [Machine.shape, Machine.withPair, Stack.cells_length] at hi
      cache := fun _ hc => by cases hc
      low := fun j hj => by
        simp only [Machine.shape, Machine.withPair]
        rw [Region.byteAt_writeAt_of_not_mem _ _ _ _ (by omega),
          Region.byteAt_writeAt_of_not_mem _ _ _ _ (by omega), Region.byteAt_zeroed]
      fits := show Settings.SizesFit {} by unfold Settings.SizesFit; decide }
  named := rfl
  cells := by
    -- two pushes onto an empty stack at cell 20
    let s : Stack := ⟨.data, 20, 5, 0⟩
    have f₀ : s.Fits (Region.zeroed 40) := ⟨by decide, by simp [s], by simp [maxRegion], by decide⟩
    have f₁ : s.raise.Fits ((Region.zeroed 40).writeAt s.next.toNat (bytesOfCell a)) :=
      ⟨by decide, by simp [s, Stack.raise], by simp [maxRegion], by decide⟩
    have c₁ := f₀.cells_raise_writeAt (by decide) a
    have c₂ := f₁.cells_raise_writeAt (by decide) b
    have e : s.cells (Region.zeroed 40) = [] := rfl
    rw [e, List.nil_append] at c₁
    rw [c₁] at c₂
    exact c₂

/-- The stack words on a small machine whose top cell is zero, so that `?dup` leaves it. -/
theorem stack_words_on_pair :
    (Machine.withPair 7 0).DataHolds Layout.small [7, 0] ∧
      (∀ w : StackWord, ∃ act, Primitive.named w.name 0 (.library act) ∈ builtinLibrary ∧
        w.Acts act (Machine.withPair 7 0) Layout.small [7, 0]) ∧
      ∃ act, Primitive.named "pick" 0 (.library act) ∈ builtinLibrary ∧
        PickActs act (Machine.withPair 7 0) Layout.small [7, 0] :=
  ⟨Machine.withPair_dataHolds 7 0, stack_words_effects (Machine.withPair_dataHolds 7 0)⟩

end ForthMachine
