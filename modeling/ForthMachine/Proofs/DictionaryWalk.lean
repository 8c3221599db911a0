import Mathlib
import ForthMachine.Machine.Library

/-!
# Walking the dictionary on any memory

Programs can store anything into the region, link cells included, so a walk of the dictionary
cannot trust the links it follows. It stops at the first link that does not point lower or
cannot be read. On every region the headers it visits from any start therefore go strictly
down and are never null, and there are at most as many of them as the start address
(`headersFrom_walk`).

`execute` asks whether its address is a header with a walk that stops early, at the first
header at or below the address. Because the headers go strictly down, that answer is the
answer of a full scan (`Machine.isHeader_iff_mem`), so `execute` calls only words on the chain
(`execute_run`).

The main statement is `dictionary_walk_safe`.
-/

namespace ForthMachine

open ForthMachine.Memory

/-! ## The walk -/

/-- A walk never visits the null address. -/
theorem ne_zero_of_mem_headersFrom {r : Region} {h x : UInt32} (hx : x ∈ headersFrom r h) :
    x ≠ 0 := by
  fun_induction headersFrom r h with
  | case1 => simp at hx
  | case2 h hne ih =>
    rcases List.mem_cons.mp hx with rfl | hx
    · exact hne
    · -- the rest of the walk is empty or the walk from a lower link
      split at hx
      · split at hx
        · exact ih _ ‹_› hx
        · simp at hx
      · simp at hx

/-- A walk visits at most as many headers as its start address: each link it follows is lower
than the header it leaves. -/
theorem length_headersFrom_le (r : Region) (h : UInt32) : (headersFrom r h).length ≤ h.toNat := by
  fun_induction headersFrom r h with
  | case1 => simp
  | case2 h hne ih =>
    have hpos : 0 < h.toNat := by
      rcases Nat.eq_zero_or_pos h.toNat with h0 | h0
      · exact absurd (UInt32.toNat_inj.mp (by simpa using h0)) hne
      · exact h0
    split
    · split
      · rename_i link _ hlt
        have hlt' : link.toNat < h.toNat := UInt32.lt_iff_toNat_lt.mp hlt
        have := ih link hlt
        simp only [List.length_cons]
        omega
      · simp only [List.length_cons, List.length_nil]
        omega
    · simp only [List.length_cons, List.length_nil]
      omega

/-- On every region, a walk from `h` visits a strictly decreasing sequence of non-null
addresses, none above `h`, and at most `h` of them. -/
theorem headersFrom_walk (r : Region) (h : UInt32) :
    (headersFrom r h).Pairwise (· > ·) ∧ (∀ x ∈ headersFrom r h, x ≠ 0 ∧ x ≤ h) ∧
      (headersFrom r h).length ≤ h.toNat :=
  ⟨(headersFrom_lt r h).1, fun _ hx => ⟨ne_zero_of_mem_headersFrom hx, (headersFrom_lt r h).2 _ hx⟩,
    length_headersFrom_le r h⟩

/-! ## Stopping early -/

/-- In a strictly decreasing list, the first element at or below `a` is `a` exactly when `a` is
in the list: every element before it is above `a`. -/
theorem find?_le_eq_some_iff_mem {l : List UInt32} (hl : l.Pairwise (· > ·)) (a : UInt32) :
    l.find? (· ≤ a) = some a ↔ a ∈ l := by
  induction l with
  | nil => simp
  | cons x xs ih =>
    obtain ⟨hx, hxs⟩ := List.pairwise_cons.mp hl
    by_cases hxa : x ≤ a
    · -- the walk stops at `x`, and nothing after it can be `a`, which would lie below `x`
      rw [List.find?_cons_of_pos (by simpa using hxa), Option.some.injEq]
      constructor
      · rintro rfl
        exact List.mem_cons_self
      · intro ha
        rcases List.mem_cons.mp ha with rfl | ha
        · rfl
        · exact absurd hxa (UInt32.not_le.mpr (hx a ha))
    · rw [List.find?_cons_of_neg (by simpa using hxa), ih hxs]
      constructor
      · exact List.mem_cons_of_mem x
      · intro ha
        rcases List.mem_cons.mp ha with rfl | ha
        · exact absurd (UInt32.le_refl _) hxa
        · exact ha

/-- The early-stopping test agrees with a full scan of the chain. -/
theorem Machine.isHeader_iff_mem (m : Machine) (a : UInt32) : m.isHeader a = true ↔ a ∈ m.headers := by
  have hl : m.headers.Pairwise (· > ·) := (headersFrom_lt m.region m.latest).1
  rw [← find?_le_eq_some_iff_mem hl a]
  unfold Machine.isHeader
  split
  · rename_i h hfind
    rw [hfind, beq_iff_eq, Option.some.injEq]
  · rename_i hfind
    simp [hfind]

/-! ## Executing an address -/

/-- `execute` pops an address and fails unless it is a header on the chain; only then does it
check the word's flags and call it. -/
theorem execute_run (m : Machine) :
    (LibraryWord.execute.run).run m =
      match (pop .data).run m with
      | .ok xt m₁ =>
        if xt ∈ m₁.headers then
          (do
            let (flags, _) ← wordInfo xt
            if !(← get).compiling && hasFlag flags flagCompileOnly then throw .compileOnly
            callWord xt : Vm Unit).run m₁
        else .error (.noWordAt xt) m₁
      | .error e m₁ => .error e m₁ := by
  simp only [LibraryWord.run, EStateM.run_bind]
  cases (pop .data).run m with
  | ok xt m₁ =>
    by_cases hmem : xt ∈ m₁.headers
    · have hh : m₁.isHeader xt = true := (m₁.isHeader_iff_mem xt).mpr hmem
      simp [hmem, hh]
    · have hh : m₁.isHeader xt = false :=
        Bool.eq_false_iff.mpr fun h => hmem ((m₁.isHeader_iff_mem xt).mp h)
      simp [hmem, hh]
  | error e m₁ => rfl

/-- Dictionary walks are safe on any memory: from the newest header they visit a strictly
decreasing sequence of non-null addresses, at most as many as its value, so they end; asking
whether an address is a header by the walk that stops at the first header at or below it
agrees with membership in that sequence; and `execute` calls only an address on the chain,
failing with `noWordAt` on any other. -/
theorem dictionary_walk_safe (m : Machine) :
    (m.headers.Pairwise (· > ·) ∧ (∀ h ∈ m.headers, h ≠ 0 ∧ h ≤ m.latest) ∧
      m.headers.length ≤ m.latest.toNat) ∧
    (∀ a, m.isHeader a = true ↔ a ∈ m.headers) ∧
    (LibraryWord.execute.run).run m =
      match (pop .data).run m with
      | .ok xt m₁ =>
        if xt ∈ m₁.headers then
          (do
            let (flags, _) ← wordInfo xt
            if !(← get).compiling && hasFlag flags flagCompileOnly then throw .compileOnly
            callWord xt : Vm Unit).run m₁
        else .error (.noWordAt xt) m₁
      | .error e m₁ => .error e m₁ :=
  ⟨headersFrom_walk m.region m.latest, m.isHeader_iff_mem, execute_run m⟩

end ForthMachine
