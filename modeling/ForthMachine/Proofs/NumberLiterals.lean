import Mathlib.Data.Nat.Digits.Defs
import Mathlib.Data.List.Forall2
import ForthMachine.Machine.Layout

/-!
# Number literals read back what `.` and `u.` print

A token that names no word is read as a literal in the base that cell 4 holds. Reading accepts
exactly the *numerals* of that base (`Numeral`): one or more digits of the base, `0` to `9` and
then letters in either case, whose value `u` is below 2³², optionally after a minus sign; the
cell is `u` or `-u`, wrapped to 32 bits. Every other token is left to the character literals,
and is an unknown word when it is none either.

The two printers write a cell in the same base, signed (`.`) or unsigned (`u.`), in upper case.
Both forms are numerals of the cell they print, so a printed number reads back as itself: the
signed form of `-2³¹` is a minus sign and the digits of 2³¹, which wrap back, and the unsigned
form of a cell of 2³¹ or more is a value below 2³² that wraps to the same cell.

Digits are said here without the table the reader uses (`IsDigit`); `digitValue_eq_some` shows
that the table accepts exactly them. The main statement is `parseLiteral_numerals`.
-/

namespace ForthMachine

open ForthMachine.Text ForthMachine.Character ForthMachine.Memory

/-! ## Numerals -/

/-- `d` is a digit of value `x` in base `b`: `0` to `9`, or for ten and up a letter in either
case, `A` or `a` standing for ten. -/
def IsDigit (b : Nat) (d : UInt8) (x : Nat) : Prop :=
  x < b ∧ (x < 10 ∧ d.toNat = 48 + x ∨ 10 ≤ x ∧ x < 36 ∧ (d.toNat = 55 + x ∨ d.toNat = 87 + x))

/-- `ds` spells `u` in base `b`: one or more digits of the base, most significant first. -/
def Spells (b : Nat) (ds : Bytes) (u : Nat) : Prop :=
  ds ≠ [] ∧ ∃ xs, List.Forall₂ (IsDigit b) ds xs ∧ u = Nat.ofDigits b xs.reverse

/-- A numeral of base `b` and the cell it stands for: digits of a value below 2³², or a minus
sign and such digits, the value negated; either way wrapped to 32 bits. -/
inductive Numeral (b : Nat) : Bytes → UInt32 → Prop
  | plain {ds : Bytes} {u : Nat} : Spells b ds u → u < 2 ^ 32 → Numeral b ds (Cell.ofInt u)
  | minus {ds : Bytes} {u : Nat} :
      Spells b ds u → u < 2 ^ 32 → Numeral b (0x2D :: ds) (Cell.ofInt (-u))

theorem Cell.ofInt_natCast (u : Nat) : Cell.ofInt u = u.toUInt32 := by
  apply UInt32.toNat_inj.mp
  unfold Cell.ofInt
  simp only [UInt32.toNat_ofNat', Nat.toUInt32]
  omega

theorem Cell.ofInt_neg_natCast (u : Nat) : Cell.ofInt (-u) = Cell.neg u.toUInt32 := by
  apply UInt32.toNat_inj.mp
  unfold Cell.ofInt Cell.neg
  simp only [UInt32.toNat_ofNat', UInt32.toNat_sub, UInt32.toNat_zero, Nat.toUInt32]
  omega

theorem Cell.toInt_bounds (v : UInt32) :
    -2147483648 ≤ Cell.toInt v ∧ Cell.toInt v < 2147483648 := by
  unfold Cell.toInt
  have := v.toNat_lt
  split <;> omega

/-! ## Reading -/

/-- The reader's digit table accepts exactly the digits. -/
theorem digitValue_eq_some {d : UInt8} {x : Nat} :
    digitValue d = some x ↔
      x < 10 ∧ d.toNat = 48 + x ∨ 10 ≤ x ∧ x < 36 ∧ (d.toNat = 55 + x ∨ d.toNat = 87 + x) := by
  unfold digitValue
  simp only [Bool.and_eq_true, decide_eq_true_eq, UInt8.le_iff_toNat_le, UInt8.reduceToNat]
  split_ifs <;> simp only [Option.some.injEq, false_iff] <;> omega

theorem filter_digitValue_eq_some {b : Nat} {d : UInt8} {x : Nat} :
    (digitValue d).filter (· < b) = some x ↔ IsDigit b d x := by
  rw [Option.filter_eq_some_iff, digitValue_eq_some, IsDigit]
  simp only [decide_eq_true_eq]
  tauto

/-- Reading digits onto `acc` shifts `acc` past them and adds their value. -/
theorem readDigits_go_eq_some {b : Nat} {ds : Bytes} {acc u : Nat} :
    readDigits.go b ds acc = some u ↔
      ∃ xs, List.Forall₂ (IsDigit b) ds xs ∧ u = acc * b ^ ds.length + Nat.ofDigits b xs.reverse := by
  induction ds generalizing acc with
  | nil => simp [readDigits.go, eq_comm]
  | cons d ds ih =>
    rw [readDigits.go]
    simp only [Option.bind_eq_bind, Option.bind_eq_some_iff, filter_digitValue_eq_some, ih,
      List.forall₂_cons_left_iff]
    -- the digit read first is the most significant: it is worth `b ^ ds.length`
    constructor
    · rintro ⟨x, hx, xs, hxs, rfl⟩
      refine ⟨x :: xs, ⟨x, xs, hx, hxs, rfl⟩, ?_⟩
      rw [Nat.ofDigits_reverse_cons, ← hxs.length_eq, List.length_cons, pow_succ]
      ring
    · rintro ⟨_, ⟨x, xs, hx, hxs, rfl⟩, rfl⟩
      refine ⟨x, hx, xs, hxs, ?_⟩
      rw [Nat.ofDigits_reverse_cons, ← hxs.length_eq, List.length_cons, pow_succ]
      ring

theorem readDigits_eq_some {b : Nat} {ds : Bytes} {u : Nat} :
    readDigits b ds = some u ↔ Spells b ds u := by
  cases ds with
  | nil => simp [readDigits, Spells]
  | cons d ds =>
    have h : readDigits b (d :: ds) = readDigits.go b (d :: ds) 0 := by
      simp [readDigits, readDigits.go]
    rw [h, readDigits_go_eq_some]
    simp [Spells]

theorem readCell_eq_some {b : Nat} {ds : Bytes} {v : UInt32} :
    readCell b ds = some v ↔ ∃ u, Spells b ds u ∧ u < 2 ^ 32 ∧ v = Cell.ofInt u := by
  simp only [readCell, Option.bind_eq_bind, Option.bind_eq_some_iff, readDigits_eq_some,
    Cell.ofInt_natCast]
  constructor
  · rintro ⟨u, hu, h⟩
    split at h
    · exact ⟨u, hu, by simpa using ‹_›, (Option.some.inj h).symm⟩
    · cases h
  · rintro ⟨u, hu, hlt, rfl⟩
    exact ⟨u, hu, by rw [if_pos (by simpa using hlt)]⟩

/-- A minus sign is no digit. -/
theorem not_spells_minus {b : Nat} {ds : Bytes} {u : Nat} : ¬ Spells b (0x2D :: ds) u := by
  rintro ⟨-, xs, hxs, -⟩
  obtain ⟨x, -, ⟨-, hx⟩, -⟩ := List.forall₂_cons_left_iff.mp hxs
  simp only [UInt8.reduceToNat] at hx
  omega

/-- **Reading a number.** A token reads as a number exactly when it is a numeral of the base,
and then as the cell the numeral stands for. -/
theorem readNumber_eq_some {b : Nat} {tok : Bytes} {v : UInt32} :
    readNumber b tok = some v ↔ Numeral b tok v := by
  unfold readNumber
  split
  · -- a minus sign followed by at least one byte
    rw [Option.map_eq_some_iff]
    constructor
    · rintro ⟨w, hw, rfl⟩
      obtain ⟨u, hu, hlt, rfl⟩ := readCell_eq_some.mp hw
      rw [Cell.ofInt_natCast, ← Cell.ofInt_neg_natCast]
      exact .minus hu hlt
    · intro h
      cases h with
      | plain hu _ => exact absurd hu not_spells_minus
      | minus hu hlt =>
        exact ⟨_, readCell_eq_some.mpr ⟨_, hu, hlt, rfl⟩,
          by rw [Cell.ofInt_natCast, Cell.ofInt_neg_natCast]⟩
  · rename_i hne
    rw [readCell_eq_some]
    constructor
    · rintro ⟨u, hu, hlt, rfl⟩
      exact .plain hu hlt
    · intro h
      cases h with
      | plain hu hlt => exact ⟨_, hu, hlt, rfl⟩
      | minus hu _ =>
        -- a minus sign before digits is the other shape
        obtain ⟨d, ds, rfl⟩ := List.exists_cons_of_ne_nil hu.1
        exact absurd rfl (hne d ds)

/-! ## Printing -/

theorem isDigit_digitChar {b x : Nat} (hb : b ≤ 36) (hx : x < b) : IsDigit b (digitChar x) x := by
  refine ⟨hx, ?_⟩
  unfold digitChar
  split
  · left
    refine ⟨‹_›, ?_⟩
    simp only [Nat.toUInt8, UInt8.toNat_ofNat']
    omega
  · right
    refine ⟨by omega, by omega, .inl ?_⟩
    simp only [Nat.toUInt8, UInt8.toNat_ofNat']
    omega

/-- The digits of a positive number are written most significant first, in front of what is
already written. -/
theorem natDigits_go {b : Nat} (hb : 2 ≤ b) {n : Nat} (hn : 0 < n) (acc : Bytes) :
    natDigits.go b n acc = ((Nat.digits b n).map digitChar).reverse ++ acc := by
  induction n using Nat.strong_induction_on generalizing acc with
  | _ n ih =>
    rw [natDigits.go]
    by_cases h : n < b
    · rw [dif_pos (.inl h), Nat.digits_of_lt b n (by omega) h, Nat.mod_eq_of_lt h]
      rfl
    · have hq : 0 < n / b := Nat.div_pos (by omega) (by omega)
      rw [dif_neg (by omega), ih (n / b) (Nat.div_lt_self hn (by omega)) hq,
        Nat.digits_def' (by omega) hn]
      simp

theorem natDigits_eq {b : Nat} (hb : 2 ≤ b) (n : Nat) :
    natDigits b n = if n = 0 then [digitChar 0] else ((Nat.digits b n).map digitChar).reverse := by
  unfold natDigits
  split
  · subst_vars
    rw [natDigits.go, dif_pos (.inl (by omega))]
    simp
  · rw [natDigits_go hb (by omega), List.append_nil]

/-- What the machine writes for a natural number spells it. -/
theorem spells_natDigits {b : Nat} (hb₁ : 2 ≤ b) (hb₂ : b ≤ 36) (n : Nat) :
    Spells b (natDigits b n) n := by
  rw [natDigits_eq hb₁]
  split
  · subst_vars
    exact ⟨by simp, [0], .cons (isDigit_digitChar hb₂ (by omega)) .nil, rfl⟩
  · rename_i hn
    refine ⟨by simpa using Nat.digits_ne_nil_iff_ne_zero.mpr hn, (Nat.digits b n).reverse, ?_,
      by simp [Nat.ofDigits_digits]⟩
    rw [← List.map_reverse, List.forall₂_map_left_iff, List.forall₂_same]
    intro x hx
    exact isDigit_digitChar hb₂ (Nat.digits_lt_base (by omega) (List.mem_reverse.mp hx))

/-- The unsigned form of a cell is a numeral of it. -/
theorem numeral_natDigits {b : Nat} (hb₁ : 2 ≤ b) (hb₂ : b ≤ 36) (v : UInt32) :
    Numeral b (natDigits b v.toNat) v := by
  have h := Numeral.plain (spells_natDigits hb₁ hb₂ v.toNat) v.toNat_lt
  rwa [Cell.ofInt_natCast, show v.toNat.toUInt32 = v from UInt32.ofNat_toNat] at h

/-- The signed form of a cell is a numeral of it: a negative cell is written as a minus sign and
the digits of its magnitude, at most 2³¹. -/
theorem numeral_intDigits {b : Nat} (hb₁ : 2 ≤ b) (hb₂ : b ≤ 36) (v : UInt32) :
    Numeral b (intDigits b (Cell.toInt v)) v := by
  have hv := Cell.toInt_bounds v
  unfold intDigits
  split
  · have h := Numeral.minus (spells_natDigits hb₁ hb₂ (Cell.toInt v).natAbs) (by omega)
    rwa [show -((Cell.toInt v).natAbs : Int) = Cell.toInt v by omega, Cell.ofInt_toInt] at h
  · have h := Numeral.plain (spells_natDigits hb₁ hb₂ (Cell.toInt v).toNat) (by omega)
    rwa [show ((Cell.toInt v).toNat : Int) = Cell.toInt v by omega, Cell.ofInt_toInt] at h

/-! ## On the machine -/

section Machine

variable {m : Machine} {b : Nat}

theorem radix_run (hb₁ : 2 ≤ b) (hb₂ : b ≤ 36)
    (hbase : m.region.loadCell baseAddr = .ok b.toUInt32) : radix.run m = .ok b m := by
  have hv : Cell.toInt b.toUInt32 = b := by
    unfold Cell.toInt
    rw [UInt32.toNat_ofNat', Nat.mod_eq_of_lt (by omega), if_pos (by omega)]
  simp only [radix, loadCell, Vm.ofRegion, hbase, EStateM.run_bind, EStateM.run_get,
    EStateM.run_pure, hv]
  rw [if_neg (by simp; omega)]
  simp

theorem formatCell_run (hb₁ : 2 ≤ b) (hb₂ : b ≤ 36)
    (hbase : m.region.loadCell baseAddr = .ok b.toUInt32) (v : UInt32) (unsigned : Bool) :
    (formatCell v unsigned).run m =
      .ok (if unsigned then natDigits b v.toNat else intDigits b (Cell.toInt v)) m := by
  simp only [formatCell, EStateM.run_bind, radix_run hb₁ hb₂ hbase]
  rw [if_neg (by simp only [Bool.or_eq_true, decide_eq_true_eq, not_or]; omega)]
  rfl

theorem parseLiteral_of_readNumber (hb₁ : 2 ≤ b) (hb₂ : b ≤ 36)
    (hbase : m.region.loadCell baseAddr = .ok b.toUInt32) {tok : Bytes} {v : UInt32}
    (h : readNumber b tok = some v) : (parseLiteral tok).run m = .ok v m := by
  simp only [parseLiteral, EStateM.run_bind, radix_run hb₁ hb₂ hbase, h]
  rfl

theorem parseLiteral_of_readLiteral (hb₁ : 2 ≤ b) (hb₂ : b ≤ 36)
    (hbase : m.region.loadCell baseAddr = .ok b.toUInt32) {tok : Bytes} {c : Nat}
    (h : readNumber b tok = none) (hc : readLiteral tok = .ok c) :
    (parseLiteral tok).run m = .ok c.toUInt32 m := by
  simp only [parseLiteral, EStateM.run_bind, radix_run hb₁ hb₂ hbase, h, hc]
  rfl

theorem parseLiteral_of_unknown (hb₁ : 2 ≤ b) (hb₂ : b ≤ 36)
    (hbase : m.region.loadCell baseAddr = .ok b.toUInt32) {tok : Bytes} {e : LiteralError}
    (h : readNumber b tok = none) (hc : readLiteral tok = .error e) :
    (parseLiteral tok).run m = .error .unknownWord m := by
  simp only [parseLiteral, EStateM.run_bind, radix_run hb₁ hb₂ hbase, h, hc]
  rfl

/-- **Printed numbers read back.** With a base from 2 to 36 in cell 4, what the machine prints
for a cell, signed or unsigned, reads back as that cell; a token reads as the cell of the
numeral it is, and one that is no numeral is left to the character literals. -/
theorem parseLiteral_numerals (hb₁ : 2 ≤ b) (hb₂ : b ≤ 36)
    (hbase : m.region.loadCell baseAddr = .ok b.toUInt32) :
    (∀ v unsigned, ∃ text, (formatCell v unsigned).run m = .ok text m ∧
        (parseLiteral text).run m = .ok v m) ∧
      (∀ tok v, Numeral b tok v → (parseLiteral tok).run m = .ok v m) ∧
      ∀ tok, (∀ v, ¬ Numeral b tok v) →
        (∀ c, readLiteral tok = .ok c → (parseLiteral tok).run m = .ok c.toUInt32 m) ∧
        ∀ e, readLiteral tok = .error e → (parseLiteral tok).run m = .error .unknownWord m := by
  have hread : ∀ tok v, Numeral b tok v → (parseLiteral tok).run m = .ok v m :=
    fun tok v h => parseLiteral_of_readNumber hb₁ hb₂ hbase (readNumber_eq_some.mpr h)
  refine ⟨fun v unsigned => ⟨_, formatCell_run hb₁ hb₂ hbase v unsigned, hread _ _ ?_⟩, hread,
    fun tok hno => ?_⟩
  · cases unsigned
    · exact numeral_intDigits hb₁ hb₂ v
    · exact numeral_natDigits hb₁ hb₂ v
  · have hnone : readNumber b tok = none :=
      Option.eq_none_iff_forall_ne_some.mpr fun v h => hno v (readNumber_eq_some.mp h)
    exact ⟨fun c hc => parseLiteral_of_readLiteral hb₁ hb₂ hbase hnone hc,
      fun e he => parseLiteral_of_unknown hb₁ hb₂ hbase hnone he⟩

end Machine

/-- A machine whose region is only the number base cell, holding sixteen. -/
def hexMachine : Machine :=
  { Machine.blank 8 {} with region := (Region.zeroed 8).writeAt 4 (bytesOfCell 16) }

theorem hexMachine_numerals :
    (2 ≤ 16 ∧ 16 ≤ 36 ∧ hexMachine.region.loadCell baseAddr = .ok (16 : Nat).toUInt32) ∧
      (∀ v unsigned, ∃ text, (formatCell v unsigned).run hexMachine = .ok text hexMachine ∧
        (parseLiteral text).run hexMachine = .ok v hexMachine) ∧
      (∀ tok v, Numeral 16 tok v → (parseLiteral tok).run hexMachine = .ok v hexMachine) ∧
      ∀ tok, (∀ v, ¬ Numeral 16 tok v) →
        (∀ c, readLiteral tok = .ok c →
          (parseLiteral tok).run hexMachine = .ok c.toUInt32 hexMachine) ∧
        ∀ e, readLiteral tok = .error e →
          (parseLiteral tok).run hexMachine = .error .unknownWord hexMachine :=
  ⟨⟨by decide, by decide, rfl⟩, parseLiteral_numerals (by decide) (by decide) rfl⟩

end ForthMachine
