import Mathlib
import ForthMachine.Machine.Inner
import ForthMachine.Machine.Layout

/-!
# When a counted loop ends

A loop step adds its step to the index and leaves the loop when `crosses` says so: when the
signs of `index - limit` before and after the step differ, as 32-bit integers. That happens
when the step carries the index across the boundary between `limit - 1` and `limit`, and also
when it carries it across the point opposite the limit, between `limit + 2³¹ - 1` and
`limit + 2³¹`, where `index - limit` wraps from `2³¹ - 1` to `-2³¹` (`crosses_iff`). So a
loop whose index starts in the upper half circle above its limit runs until it reaches the
opposite point, not until it comes round to the limit.

For `loop`, which steps by one, this gives the number of passes a loop makes when its body
leaves the loop frame alone (`loop_passes`): `2³¹` less the distance from the limit up to the
start, taken modulo `2³¹`. A loop that starts below its limit, within half the circle, makes as
many passes as the limit is above the start (`loopPasses_of_below`); one that starts at its
limit makes `2³¹` (`loopPasses_self`).
-/

namespace ForthMachine

/-- Whether a loop step of `step`, read as a signed 32-bit number, carries an index from `i`
across the boundary between `b - 1` and `b` in its own direction: a step up passes `b` when
`b` lies less than `step` above `i` (counting round the circle), and a step down passes it when
`i` lies less than `-step` at or above `b`. A step of zero passes nothing. -/
def StepsAcross (b i step : UInt32) : Prop :=
  if step.toNat < 2 ^ 31 then (b - 1 - i).toNat < step.toNat
  else (i - b).toNat < (0 - step).toNat

instance (b i step : UInt32) : Decidable (StepsAcross b i step) :=
  inferInstanceAs (Decidable (if step.toNat < 2 ^ 31 then (b - 1 - i).toNat < step.toNat
    else (i - b).toNat < (0 - step).toNat))

/-- `crosses` compares the top bits of the index's distance to the limit before and after the
step. -/
theorem crosses_iff_sign (i limit step : UInt32) :
    crosses i limit step = true ↔
      ((i - limit).toNat < 2 ^ 31 ↔ 2 ^ 31 ≤ (i + step - limit).toNat) := by
  have hx := (i - limit).toNat_lt
  have hy := (i + step - limit).toNat_lt
  -- the top bit of a 32-bit number, as a number
  have top : ∀ n : Nat, n < 2 ^ 32 → n >>> 31 = if n < 2 ^ 31 then 0 else 1 := by
    intro n hn
    rw [Nat.shiftRight_eq_div_pow]
    split <;> omega
  simp only [crosses, beq_iff_eq, ← UInt32.toNat_inj, UInt32.toNat_shiftRight,
    UInt32.toNat_xor, Nat.shiftRight_xor_distrib, UInt32.reduceToNat, Nat.reduceMod]
  rw [top _ hx, top _ hy]
  split <;> split <;>
    simp only [Nat.xor_self, Nat.zero_xor, Nat.xor_zero, Nat.zero_ne_one, false_iff, true_iff] <;>
    omega

/-- A loop step leaves the loop exactly when it carries the index across the boundary between
`limit - 1` and `limit`, or across the point opposite the limit. -/
theorem crosses_iff (i limit step : UInt32) :
    crosses i limit step = true ↔
      StepsAcross limit i step ∨ StepsAcross (limit + 2 ^ 31) i step := by
  rw [crosses_iff_sign]
  have hi := i.toNat_lt
  have hl := limit.toNat_lt
  have hs := step.toNat_lt
  have h31 : (2 ^ 31 : UInt32).toNat = 2 ^ 31 := rfl
  unfold StepsAcross
  simp only [UInt32.toNat_sub, UInt32.toNat_add, h31, UInt32.reduceToNat]
  -- a step up, and a step down
  split <;> omega

/-- The index `2³¹ - 1` above a limit of 0 leaves the loop on a step of one, though it does
not pass the limit. -/
example : crosses 0x7FFFFFFF 0 1 = true ∧ ¬ StepsAcross 0 0x7FFFFFFF 1 := by decide

/-- One loop step: with the address of the loop's start at the instruction pointer and the
index `i` over the limit `limit` on the return stack, `stepLoop` drops the loop frame when the
step carries the index across the limit or the point opposite it, and otherwise stores
`i + step` as the index and jumps back to the start. -/
theorem stepLoop_run {m m' : Machine} {start i limit : UInt32} (step : UInt32)
    (hs : nextOperand.run m = .ok start m') (hi : (peek .ret 0).run m' = .ok i m')
    (hl : (peek .ret 1).run m' = .ok limit m') :
    (stepLoop step).run m =
      if StepsAcross limit i step ∨ StepsAcross (limit + 2 ^ 31) i step then
        (dropCells .ret 3).run m'
      else (poke .ret 0 (i + step)).run { m' with ip := start } := by
  have hc := crosses_iff i limit step
  simp only [stepLoop, EStateM.run_bind, hs, hi, hl]
  by_cases h : crosses i limit step = true
  · rw [if_pos h, if_pos (hc.1 h)]
  · rw [if_neg h, if_neg (mt hc.2 h)]
    rfl

/-- A machine about to step a loop whose index lies just below the point opposite its limit:
the operand at cell 8 holds the loop's start, 0, and the return stack from cell 16 holds the
frame: leave address 0, limit 0, and the index `2³¹ - 1` on top. -/
def Machine.beforeLoopStep : Machine :=
  { Machine.blank 32 {} with
    region := (Memory.Region.zeroed 32).writeAt 24 (Memory.bytesOfCell 0x7FFFFFFF)
    here := 16
    ip := 8
    ret := ⟨.ret, 16, 4, 3⟩ }

/-- Stepping that loop by one reads its start, index and limit as `stepLoop_run` asks. -/
theorem stepLoop_on_opposite_point :
    nextOperand.run Machine.beforeLoopStep = .ok 0 { Machine.beforeLoopStep with ip := 12 } ∧
    (peek .ret 0).run { Machine.beforeLoopStep with ip := 12 } =
      .ok 0x7FFFFFFF { Machine.beforeLoopStep with ip := 12 } ∧
    (peek .ret 1).run { Machine.beforeLoopStep with ip := 12 } =
      .ok 0 { Machine.beforeLoopStep with ip := 12 } ∧
    (stepLoop 1).run Machine.beforeLoopStep =
      if StepsAcross 0 0x7FFFFFFF 1 ∨ StepsAcross (0 + 2 ^ 31) 0x7FFFFFFF 1 then
        (dropCells .ret 3).run { Machine.beforeLoopStep with ip := 12 }
      else (poke .ret 0 (0x7FFFFFFF + 1)).run
        { { Machine.beforeLoopStep with ip := 12 } with ip := 0 } :=
  have hs : nextOperand.run Machine.beforeLoopStep =
      .ok 0 { Machine.beforeLoopStep with ip := 12 } := rfl
  have hi : (peek .ret 0).run { Machine.beforeLoopStep with ip := 12 } =
      .ok 0x7FFFFFFF { Machine.beforeLoopStep with ip := 12 } := rfl
  have hl : (peek .ret 1).run { Machine.beforeLoopStep with ip := 12 } =
      .ok 0 { Machine.beforeLoopStep with ip := 12 } := rfl
  ⟨hs, hi, hl, stepLoop_run 1 hs hi hl⟩

/-! ## Loops that step by one -/

/-- A step of one leaves the loop when the index lies `2³¹ - 1` above the limit, modulo `2³¹`:
just before the point opposite the limit, or just below the limit. -/
theorem crosses_one_iff (i limit : UInt32) :
    crosses i limit 1 = true ↔ (i - limit).toNat % 2 ^ 31 = 2 ^ 31 - 1 := by
  rw [crosses_iff_sign]
  have hi := i.toNat_lt
  have hl := limit.toNat_lt
  simp only [UInt32.toNat_sub, UInt32.toNat_add, UInt32.reduceToNat]
  omega

/-- The number of passes of `limit start do ... loop` whose body leaves the loop frame alone. -/
def loopPasses (start limit : UInt32) : Nat := 2 ^ 31 - (start - limit).toNat % 2 ^ 31

/-- The loop's index runs `start`, `start + 1`, …: `loop` stays in the loop after each of the
first `loopPasses start limit - 1` passes and leaves it after the next one. -/
theorem loop_passes (start limit : UInt32) :
    (∀ j < loopPasses start limit - 1, crosses (start + j.toUInt32) limit 1 = false) ∧
      crosses (start + (loopPasses start limit - 1).toUInt32) limit 1 = true := by
  have hs := start.toNat_lt
  have hl := limit.toNat_lt
  -- the index after `j` passes, as a number, for every `j` below `2³¹`
  have index : ∀ j < 2 ^ 31, (start + j.toUInt32 - limit).toNat % 2 ^ 31 =
      ((start - limit).toNat % 2 ^ 31 + j) % 2 ^ 31 := by
    intro j hj
    simp only [UInt32.toNat_sub, UInt32.toNat_add, Nat.toUInt32_eq, UInt32.toNat_ofNat']
    omega
  unfold loopPasses
  refine ⟨fun j hj => ?_, ?_⟩
  · have hj' : j < 2 ^ 31 := by omega
    rw [Bool.eq_false_iff, ne_eq, crosses_one_iff, index j hj']
    omega
  · rw [crosses_one_iff, index _ (by omega)]
    omega

/-- A loop that starts below its limit, by less than half the circle, makes as many passes as
the limit lies above the start. -/
theorem loopPasses_of_below {start limit : UInt32} (h : 2 ^ 31 ≤ (start - limit).toNat) :
    loopPasses start limit = (limit - start).toNat := by
  have hs := start.toNat_lt
  have hl := limit.toNat_lt
  unfold loopPasses
  simp only [UInt32.toNat_sub] at h ⊢
  omega

/-- A loop that starts at its limit makes `2³¹` passes. -/
theorem loopPasses_self (n : UInt32) : loopPasses n n = 2 ^ 31 := by
  simp [loopPasses]

example : loopPasses 0 10 = 10 ∧ loopPasses 10 10 = 2147483648 := by decide

end ForthMachine
