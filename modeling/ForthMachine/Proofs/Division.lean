import ForthMachine.Proofs.StackWords
import ForthMachine.Proofs.NumberLiterals
/-!
# Division

`/`, `mod` and `/mod` divide the second cell of the data stack by the top one, reading both as
two's complement integers: the quotient is truncated toward zero and wraps to 32 bits, and the
remainder is what is left, so that it takes the dividend's sign. Only `-2 ^ 31 / -1` has a
quotient that does not fit; it wraps back to `-2 ^ 31`, with remainder zero.

`Cell.TruncatedDivision a b q r` states these laws of a quotient and remainder without the
division itself; `Cell.truncatedDivision_quot_rem` proves them of `Cell.quot` and `Cell.rem`.

Main statement: `division_words`. On a data stack whose top cells are `a b`, each of the three
words faults with `DivisionByZero` exactly when `b = 0`, having consumed both cells, and
otherwise replaces them by the quotient, the remainder, or the remainder under the quotient.
-/

namespace ForthMachine

namespace Cell

theorem ofInt_eq_uInt32_ofInt (i : Int) : ofInt i = UInt32.ofInt i := rfl

/-- Cells that read as the same integer are the same cell. -/
theorem toInt_inj {a b : UInt32} : toInt a = toInt b ↔ a = b :=
  ⟨fun h => by rw [← ofInt_toInt a, h, ofInt_toInt], fun h => h ▸ rfl⟩

/-- An integer of 32 signed bits reads back from its cell. -/
theorem toInt_ofInt {i : Int} (h₁ : -2147483648 ≤ i) (h₂ : i < 2147483648) :
    toInt (ofInt i) = i := by
  have h : (ofInt i).toNat = (i % 4294967296).toNat := by
    unfold ofInt
    simp only [Nat.toUInt32, UInt32.toNat_ofNat']
    omega
  unfold toInt
  rw [h]
  split <;> omega

/-- The truncated remainder has the dividend's sign, or is zero. -/
theorem tmod_sign (x y : Int) : (0 ≤ x → 0 ≤ x.tmod y) ∧ (x < 0 → x.tmod y ≤ 0) := by
  refine ⟨Int.tmod_nonneg y, fun hx => ?_⟩
  have := Int.tmod_nonneg y (show 0 ≤ -x by omega)
  rw [Int.neg_tmod] at this
  omega

/-- The remainder reads as the truncated remainder of the two readings: it is no larger than
the dividend and has its sign, so it always fits. -/
theorem toInt_rem (a b : UInt32) : toInt (rem a b) = (toInt a).tmod (toInt b) := by
  have ha := toInt_bounds a
  have habs := Int.natAbs_tmod (toInt a) (toInt b)
  have hle := Nat.mod_le (toInt a).natAbs (toInt b).natAbs
  have hsign := tmod_sign (toInt a) (toInt b)
  exact toInt_ofInt (by omega) (by omega)

/-- The quotient reads as the truncated quotient of the two readings, except for
`-2 ^ 31 / -1`: the quotient is no larger than the dividend, and as large only for a divisor
of `1` or `-1`. -/
theorem toInt_quot {a b : UInt32} (h : ¬ (a = 0x80000000 ∧ b = 0xFFFFFFFF)) :
    toInt (quot a b) = (toInt a).tdiv (toInt b) := by
  have ha := toInt_bounds a
  have hn : ¬ (toInt a = -2147483648 ∧ toInt b = -1) := fun ⟨h₁, h₂⟩ =>
    h ⟨toInt_inj.mp (h₁.trans rfl), toInt_inj.mp (h₂.trans rfl)⟩
  have habs : ((toInt a).tdiv (toInt b)).natAbs = (toInt a).natAbs / (toInt b).natAbs :=
    Int.natAbs_tdiv _ _
  unfold quot
  apply toInt_ofInt
  · by_cases h1 : (toInt b).natAbs = 1
    · rcases (show toInt b = 1 ∨ toInt b = -1 by omega) with hb | hb
      · rw [hb, Int.tdiv_one]
        omega
      · rw [hb, Int.tdiv_neg, Int.tdiv_one]
        omega
    · have h2 : (toInt a).natAbs / (toInt b).natAbs ≤ (toInt a).natAbs :=
        Nat.div_le_self _ _
      omega
  · by_cases h1 : (toInt b).natAbs = 1
    · rcases (show toInt b = 1 ∨ toInt b = -1 by omega) with hb | hb
      · rw [hb, Int.tdiv_one]
        omega
      · rw [hb, Int.tdiv_neg, Int.tdiv_one]
        omega
    · -- a divisor of at least two halves the dividend
      have h2 : (toInt a).natAbs / (toInt b).natAbs ≤ (toInt a).natAbs / 2 := by
        rcases Nat.eq_zero_or_pos (toInt b).natAbs with h0 | h0
        · rw [h0, Nat.div_zero]
          exact Nat.zero_le _
        · exact Nat.div_le_div_left (by omega) (by decide)
      omega

/-- What dividing `a` by `b`, truncating toward zero, gives as the cells `q` and `r`: `q * b + r`
is `a` again, modulo `2 ^ 32`; the remainder is smaller than the divisor, and zero or of the
dividend's sign; the quotient is the integer quotient truncated toward zero, except for
`-2 ^ 31 / -1`, whose quotient `2 ^ 31` wraps to `-2 ^ 31`, with remainder zero. -/
structure TruncatedDivision (a b q r : UInt32) : Prop where
  recombines : q * b + r = a
  rem_lt : (toInt r).natAbs < (toInt b).natAbs
  rem_sign : r = 0 ∨ (toInt r < 0 ↔ toInt a < 0)
  quot_trunc : toInt q = (toInt a).tdiv (toInt b) ∨
    a = 0x80000000 ∧ b = 0xFFFFFFFF ∧ q = 0x80000000 ∧ r = 0

theorem quot_mul_add_rem (a b : UInt32) : quot a b * b + rem a b = a := by
  calc quot a b * b + rem a b
      = ofInt ((toInt a).tdiv (toInt b)) * ofInt (toInt b) + ofInt ((toInt a).tmod (toInt b)) := by
        rw [ofInt_toInt]
        rfl
    _ = ofInt ((toInt a).tmod (toInt b) + (toInt a).tdiv (toInt b) * toInt b) := by
        simp only [ofInt_eq_uInt32_ofInt, UInt32.ofInt_add, UInt32.ofInt_mul]
        exact UInt32.add_comm _ _
    _ = a := by rw [Int.tmod_add_tdiv_mul, ofInt_toInt]

theorem truncatedDivision_quot_rem {a b : UInt32} (hb : b ≠ 0) :
    TruncatedDivision a b (quot a b) (rem a b) where
  recombines := quot_mul_add_rem a b
  rem_lt := by
    have hb' : toInt b ≠ 0 := fun h => hb (toInt_inj.mp (h.trans rfl))
    rw [toInt_rem, Int.natAbs_tmod]
    exact Nat.mod_lt _ (Int.natAbs_pos.mpr hb')
  rem_sign := by
    have hsign := tmod_sign (toInt a) (toInt b)
    rw [toInt_rem]
    by_cases h0 : (toInt a).tmod (toInt b) = 0
    · left
      rw [← toInt_rem] at h0
      exact toInt_inj.mp (h0.trans rfl)
    · right
      omega
  quot_trunc := by
    by_cases hw : a = 0x80000000 ∧ b = 0xFFFFFFFF
    · obtain ⟨rfl, rfl⟩ := hw
      exact .inr ⟨rfl, rfl, div_min_neg_one, by decide⟩
    · exact .inl (toInt_quot hw)

end Cell

/-- The word of the builtin library that leaves a division's result. -/
def DivisionResult.name : DivisionResult → String
  | .quotient => "/"
  | .remainder => "mod"
  | .both => "/mod"

/-- The cells a division word leaves, bottom first: `/` the quotient, `mod` the remainder,
`/mod` the remainder under the quotient. -/
def DivisionResult.pushed : DivisionResult → UInt32 → UInt32 → List UInt32
  | .quotient, q, _ => [q]
  | .remainder, _, r => [r]
  | .both, q, r => [r, q]

theorem DivisionResult.length_pushed_le (r : DivisionResult) (q rm : UInt32) :
    (r.pushed q rm).length ≤ 2 := by
  cases r <;> simp [DivisionResult.pushed]

section Divide

variable {m m₁ : Machine} {L : Layout} {xs : List UInt32} {a b : UInt32}

theorem pushAll_singleton (v : UInt32) (m : Machine) :
    (pushAll [v]).run m = (push .data v).run m := by
  rw [pushAll_cons, EStateM.run_bind]
  cases (push .data v).run m <;> rfl

/-- Past its two pops and the check of the divisor, a division pushes what it names. -/
theorem divideCells_run (hpop : (popN 2).run m = .ok [a, b] m₁) (hb : b ≠ 0) (r : DivisionResult) :
    (divideCells r).run m = (pushAll (r.pushed (Cell.quot a b) (Cell.rem a b))).run m₁ := by
  cases r <;> simp only [divideCells, EStateM.run_bind, hpop, List.getD_cons_zero,
    List.getD_cons_succ, if_neg hb, DivisionResult.pushed, pushAll_singleton]

theorem divideCells_ok (h : m.DataHolds L (xs ++ [a, b])) (hb : b ≠ 0) (r : DivisionResult) :
    ∃ m', (divideCells r).run m = .ok () m' ∧
      m'.DataHolds L (xs ++ r.pushed (Cell.quot a b) (Cell.rem a b)) := by
  have hroom := h.length_le
  simp only [List.length_append, List.length_cons, List.length_nil] at hroom
  obtain ⟨m₁, hpop, h₁⟩ := h.popN_ok
  -- the results take the places of the operands, so they fit
  obtain ⟨m', hr, h'⟩ := h₁.pushAll_ok (r.pushed (Cell.quot a b) (Cell.rem a b))
    (by have := r.length_pushed_le (Cell.quot a b) (Cell.rem a b); omega)
  exact ⟨m', (divideCells_run hpop hb r).trans hr, h'⟩

theorem divideCells_zero (h : m.DataHolds L (xs ++ [a, 0])) (r : DivisionResult) :
    ∃ m', (divideCells r).run m = .error .divisionByZero m' ∧ m'.DataHolds L xs := by
  obtain ⟨m₁, hpop, h₁⟩ := h.popN_ok
  have hpop : (popN 2).run m = .ok [a, 0] m₁ := hpop
  refine ⟨m₁, ?_, h₁⟩
  simp only [divideCells, EStateM.run_bind, hpop, List.getD_cons_zero, List.getD_cons_succ]
  rfl

end Divide

/-- The division words `/`, `mod` and `/mod` of the builtin library, on a data stack whose top
cells are `a b`: each faults with `DivisionByZero` when `b = 0`, having consumed both cells;
otherwise it replaces them by what it names of the truncated division of `a` by `b`, whose
quotient and remainder obey its laws. -/
theorem division_words {m : Machine} {L : Layout} {xs : List UInt32} {a b : UInt32}
    (h : m.DataHolds L (xs ++ [a, b])) (r : DivisionResult) :
    Primitive.named r.name 0 (.library (.divide r)) ∈ builtinLibrary ∧
      (b = 0 → ∃ m', (LibraryWord.divide r).run.run m = .error .divisionByZero m' ∧
        m'.DataHolds L xs) ∧
      (b ≠ 0 → ∃ m', (LibraryWord.divide r).run.run m = .ok () m' ∧
        m'.DataHolds L (xs ++ r.pushed (Cell.quot a b) (Cell.rem a b)) ∧
        Cell.TruncatedDivision a b (Cell.quot a b) (Cell.rem a b)) := by
  have hmem : Primitive.named r.name 0 (.library (.divide r)) ∈ builtinLibrary := by
    cases r with
    | quotient => exact List.mem_iff_getElem?.mpr ⟨21, rfl⟩
    | remainder => exact List.mem_iff_getElem?.mpr ⟨22, rfl⟩
    | both => exact List.mem_iff_getElem?.mpr ⟨23, rfl⟩
  refine ⟨hmem, fun hb => ?_, fun hb => ?_⟩
  · subst hb
    exact divideCells_zero h r
  · obtain ⟨m', hr, h'⟩ := divideCells_ok h hb r
    exact ⟨m', hr, h', Cell.truncatedDivision_quot_rem hb⟩

/-- The one division whose quotient wraps, on a small machine. -/
theorem min_by_neg_one_divides :
    (Machine.withPair 0x80000000 0xFFFFFFFF).DataHolds Layout.small
        ([] ++ [0x80000000, 0xFFFFFFFF]) ∧
      ∀ r : DivisionResult, Primitive.named r.name 0 (.library (.divide r)) ∈ builtinLibrary ∧
        ((0xFFFFFFFF : UInt32) = 0 → ∃ m', (LibraryWord.divide r).run.run
            (Machine.withPair 0x80000000 0xFFFFFFFF) = .error .divisionByZero m' ∧
          m'.DataHolds Layout.small []) ∧
        ((0xFFFFFFFF : UInt32) ≠ 0 → ∃ m', (LibraryWord.divide r).run.run
            (Machine.withPair 0x80000000 0xFFFFFFFF) = .ok () m' ∧
          m'.DataHolds Layout.small
            ([] ++ r.pushed (Cell.quot 0x80000000 0xFFFFFFFF) (Cell.rem 0x80000000 0xFFFFFFFF)) ∧
          Cell.TruncatedDivision 0x80000000 0xFFFFFFFF (Cell.quot 0x80000000 0xFFFFFFFF)
            (Cell.rem 0x80000000 0xFFFFFFFF)) :=
  ⟨Machine.withPair_dataHolds _ _, division_words (Machine.withPair_dataHolds _ _)⟩

end ForthMachine
