import Mathlib
import ForthMachine.Cli.Wrappers

/-!
# Finding a builder method in a line

The generator looks in each line for the pattern

    func (vmt vmTestCase) (expect|with)(.+?)\((.+?)\) vmTestCase

and takes its first match: the leftmost one, and at that position the one with the shortest
name and then the shortest parameter text, the order in which lazy repetitions try them. The
search is three loops: `builderMethod` over start positions, `shortestName` over name lengths
and `shortestParams` over parameter lengths. Each loop returns the least candidate of its
kind, so `builderMethod` returns exactly the first match of the pattern
(`builderMethod_eq_some_iff`), and nothing when the pattern does not occur in the line
(`builderMethod_eq_none_iff`).
-/

namespace ForthMachine.Cli

open ForthMachine.Text

theorem append_prefix_iff {α : Type} {l₁ l₂ l : List α} :
    l₁ ++ l₂ <+: l ↔ l₁ <+: l ∧ l₂ <+: l.drop l₁.length := by
  constructor
  · rintro ⟨t, rfl⟩
    exact ⟨⟨l₂ ++ t, by simp⟩, ⟨t, by simp⟩⟩
  · rintro ⟨h₁, h₂⟩
    rw [← List.prefix_iff_eq_append.mp h₁]
    exact (List.prefix_append_right_inj l₁).mpr h₂

/-! ## The parameter text -/

/-- `p` is a parameter text of `rest`: non-empty, and followed there by `) vmTestCase`. -/
def ClosesParams (rest p : Bytes) : Prop := p ≠ [] ∧ p ++ methodSuffix <+: rest

theorem ClosesParams.eq_take {rest p : Bytes} (h : ClosesParams rest p) :
    p = rest.take p.length :=
  List.prefix_iff_eq_take.mp (append_prefix_iff.mp h.2).1

theorem ClosesParams.suffix {rest p : Bytes} (h : ClosesParams rest p) :
    methodSuffix <+: rest.drop p.length :=
  (append_prefix_iff.mp h.2).2

theorem ClosesParams.length_lt {rest p : Bytes} (h : ClosesParams rest p) :
    p.length < rest.length := by
  have hl := h.2.length_le
  have hs : methodSuffix.length = 12 := by decide +kernel
  simp only [List.length_append, hs] at hl
  omega

theorem closesParams_take_iff {rest : Bytes} {n : Nat} (hn : n ≤ rest.length) :
    ClosesParams rest (rest.take n) ↔ 0 < n ∧ methodSuffix <+: rest.drop n := by
  have hlen : (rest.take n).length = n := List.length_take_of_le hn
  unfold ClosesParams
  rw [append_prefix_iff, hlen, ← List.length_pos_iff]
  simp [hlen, List.take_prefix]

/-- No parameter text of length `n` ends where the closing text does not follow. -/
theorem ClosesParams.length_ne {rest p : Bytes} {n : Nat} (h : ClosesParams rest p)
    (hn : ¬ methodSuffix <+: rest.drop n) : p.length ≠ n := by
  rintro rfl
  exact hn h.suffix

/-- From length `n` on, the search finds the shortest parameter text at least that long,
and nothing when there is none. -/
theorem shortestParams_go_spec (rest : Bytes) :
    ∀ fuel n, 0 < n → rest.length < n + fuel →
      (∀ p, shortestParams.go rest n fuel = some p ↔
        ClosesParams rest p ∧ n ≤ p.length ∧
          ∀ p', ClosesParams rest p' → n ≤ p'.length → p.length ≤ p'.length) ∧
      (shortestParams.go rest n fuel = none ↔ ∀ p, ClosesParams rest p → p.length < n) := by
  intro fuel
  induction fuel with
  | zero =>
    intro n _ hfuel
    -- no text fits: a parameter text is shorter than `rest`
    refine ⟨fun p => ⟨fun h => by simp [shortestParams.go] at h, ?_⟩,
      ⟨fun _ p hp => by have := hp.length_lt; omega, fun _ => rfl⟩⟩
    rintro ⟨hp, hn, -⟩
    have := hp.length_lt
    omega
  | succ fuel ih =>
    intro n hpos hfuel
    by_cases hlen : n > rest.length
    · have hnone : shortestParams.go rest n (fuel + 1) = none := by
        simp [shortestParams.go, hlen]
      refine ⟨fun p => ⟨fun h => by simp [hnone] at h, ?_⟩,
        ⟨fun _ p hp => by have := hp.length_lt; omega, fun _ => hnone⟩⟩
      rintro ⟨hp, hn, -⟩
      have := hp.length_lt
      omega
    by_cases hs : methodSuffix <+: rest.drop n
    · -- the text of length `n` is the shortest
      have hsome : shortestParams.go rest n (fuel + 1) = some (rest.take n) := by
        simp [shortestParams.go, hlen, List.isPrefixOf_iff_prefix.mpr hs]
      have htake : ClosesParams rest (rest.take n) :=
        (closesParams_take_iff (by omega)).mpr ⟨hpos, hs⟩
      have hlen' : (rest.take n).length = n := List.length_take_of_le (by omega)
      rw [hsome]
      refine ⟨fun p => ⟨?_, ?_⟩, ⟨fun h => by simp at h, fun h => by
        have := h _ htake; omega⟩⟩
      · rintro ⟨⟩
        exact ⟨htake, by omega, fun p' _ hp' => by omega⟩
      · rintro ⟨hp, hn, hmin⟩
        have hle := hmin _ htake (by omega)
        rw [hp.eq_take, show p.length = n by omega]
    · -- no text of length `n`: the search goes on from `n + 1`
      have hnext : shortestParams.go rest n (fuel + 1) = shortestParams.go rest (n + 1) fuel := by
        have : methodSuffix.isPrefixOf (rest.drop n) = false :=
          Bool.eq_false_iff.mpr fun h => hs (List.isPrefixOf_iff_prefix.mp h)
        simp [shortestParams.go, hlen, this]
      obtain ⟨ihs, ihn⟩ := ih (n + 1) (by omega) (by omega)
      rw [hnext]
      refine ⟨fun p => (ihs p).trans ?_, ihn.trans ?_⟩
      · constructor
        · rintro ⟨hp, hn, hmin⟩
          exact ⟨hp, by omega, fun p' hp' _ => hmin p' hp' (by have := hp'.length_ne hs; omega)⟩
        · rintro ⟨hp, hn, hmin⟩
          exact ⟨hp, by have := hp.length_ne hs; omega, fun p' hp' _ => hmin p' hp' (by omega)⟩
      · exact forall_congr' fun p => imp_congr_right fun hp => by
          have := hp.length_ne hs; omega

/-- The parameter text found is the shortest one. -/
theorem shortestParams_eq_some_iff {rest p : Bytes} :
    shortestParams rest = some p ↔
      ClosesParams rest p ∧ ∀ p', ClosesParams rest p' → p.length ≤ p'.length := by
  rw [shortestParams, ((shortestParams_go_spec rest _ 1 Nat.one_pos (by omega)).1 p)]
  constructor
  · rintro ⟨hp, -, hmin⟩
    exact ⟨hp, fun p' hp' => hmin p' hp' (List.length_pos_iff.mpr hp'.1)⟩
  · rintro ⟨hp, hmin⟩
    exact ⟨hp, List.length_pos_iff.mpr hp.1, fun p' hp' _ => hmin p' hp'⟩

theorem shortestParams_eq_none_iff {rest : Bytes} :
    shortestParams rest = none ↔ ∀ p, ¬ ClosesParams rest p := by
  rw [shortestParams, ((shortestParams_go_spec rest _ 1 Nat.one_pos (by omega)).2)]
  refine forall_congr' fun p => ⟨fun h hp => ?_, fun h hp => absurd hp h⟩
  have := h hp
  exact hp.1 (List.length_eq_zero_iff.mp (by omega))

/-! ## The name -/

/-- `w` and `p` are a name and a parameter text of `rest`: a non-empty name, an opening
parenthesis, and a parameter text that the closing text follows. -/
def NameAndParams (rest w p : Bytes) : Prop :=
  w ≠ [] ∧ w ++ [0x28] <+: rest ∧ ClosesParams (rest.drop (w.length + 1)) p

/-- The order in which lazy repetitions try a name and a parameter text: the shorter name
first, and for one name the shorter parameter text. -/
def LazyBefore (w p w' p' : Bytes) : Prop :=
  w.length < w'.length ∨ (w.length = w'.length ∧ p.length ≤ p'.length)

theorem NameAndParams.eq_take {rest w p : Bytes} (h : NameAndParams rest w p) :
    w = rest.take w.length :=
  List.prefix_iff_eq_take.mp (append_prefix_iff.mp h.2.1).1

theorem NameAndParams.length_lt {rest w p : Bytes} (h : NameAndParams rest w p) :
    w.length < rest.length := by
  have := h.2.1.length_le
  simp only [List.length_append, List.length_singleton] at this
  omega

theorem nameAndParams_take_iff {rest p : Bytes} {n : Nat} (hn : n < rest.length) :
    NameAndParams rest (rest.take n) p ↔
      0 < n ∧ rest[n]? = some 0x28 ∧ ClosesParams (rest.drop (n + 1)) p := by
  have hlen : (rest.take n).length = n := List.length_take_of_le (by omega)
  unfold NameAndParams
  rw [append_prefix_iff, hlen, List.singleton_prefix_iff_head?_eq_some, List.head?_drop,
    ← List.length_pos_iff, hlen]
  simp [List.take_prefix]

/-- A name of length `n` needs an opening parenthesis at `n` and a parameter text after it. -/
theorem NameAndParams.length_ne {rest w p : Bytes} {n : Nat} (h : NameAndParams rest w p)
    (hn : ¬ (rest[n]? = some 0x28 ∧ ∃ p, ClosesParams (rest.drop (n + 1)) p)) :
    w.length ≠ n := by
  rintro rfl
  have hw := (nameAndParams_take_iff h.length_lt).mp (h.eq_take ▸ h)
  exact hn ⟨hw.2.1, p, hw.2.2⟩

/-- From length `n` on, the search finds the shortest name at least that long that a
parameter text follows, with the shortest parameter text after it, and nothing when there is
none. -/
theorem shortestName_go_spec (rest : Bytes) :
    ∀ fuel n, 0 < n → rest.length < n + fuel →
      (∀ w p, shortestName.go rest n fuel = some (w, p) ↔
        (∃ p', NameAndParams rest w p') ∧ n ≤ w.length ∧
          (∀ w' p', NameAndParams rest w' p' → n ≤ w'.length → w.length ≤ w'.length) ∧
          shortestParams (rest.drop (w.length + 1)) = some p) ∧
      (shortestName.go rest n fuel = none ↔
        ∀ w p, NameAndParams rest w p → w.length < n) := by
  intro fuel
  induction fuel with
  | zero =>
    intro n _ hfuel
    refine ⟨fun w p => ⟨fun h => by simp [shortestName.go] at h, ?_⟩,
      ⟨fun _ w p hw => by have := hw.length_lt; omega, fun _ => rfl⟩⟩
    rintro ⟨⟨p', hw⟩, hn, -⟩
    have := hw.length_lt
    omega
  | succ fuel ih =>
    intro n hpos hfuel
    by_cases hlen : n ≥ rest.length
    · have hnone : shortestName.go rest n (fuel + 1) = none := by
        simp [shortestName.go, hlen]
      refine ⟨fun w p => ⟨fun h => by simp [hnone] at h, ?_⟩,
        ⟨fun _ w p hw => by have := hw.length_lt; omega, fun _ => hnone⟩⟩
      rintro ⟨⟨p', hw⟩, hn, -⟩
      have := hw.length_lt
      omega
    have hlen' : (rest.take n).length = n := List.length_take_of_le (by omega)
    by_cases hs : rest[n]? = some 0x28 ∧ ∃ p, ClosesParams (rest.drop (n + 1)) p
    · -- the name of length `n` is the shortest; its parameter text is the shortest after it
      obtain ⟨hparen, p₀, hp₀⟩ := hs
      obtain ⟨p₁, hp₁⟩ : ∃ p₁, shortestParams (rest.drop (n + 1)) = some p₁ := by
        cases h : shortestParams (rest.drop (n + 1)) with
        | none => exact absurd hp₀ (shortestParams_eq_none_iff.mp h p₀)
        | some p₁ => exact ⟨p₁, rfl⟩
      have hsome : shortestName.go rest n (fuel + 1) = some (rest.take n, p₁) := by
        simp only [shortestName.go, if_neg hlen, if_pos hparen, hp₁]
      have htake : NameAndParams rest (rest.take n) p₀ :=
        (nameAndParams_take_iff (by omega)).mpr ⟨hpos, hparen, hp₀⟩
      rw [hsome]
      refine ⟨fun w p => ⟨?_, ?_⟩, ⟨fun h => by simp at h, fun h => by
        have := h _ _ htake; omega⟩⟩
      · rintro ⟨⟩
        exact ⟨⟨p₀, htake⟩, by omega, fun w' _ _ hw' => by omega, by rw [hlen']; exact hp₁⟩
      · rintro ⟨⟨p', hw⟩, hn, hmin, hp⟩
        have hle := hmin _ _ htake (by omega)
        have hw_eq : w = rest.take n := by rw [hw.eq_take, show w.length = n by omega]
        subst hw_eq
        rw [hlen', hp₁] at hp
        rw [Option.some.inj hp]
    · -- no name of length `n`: the search goes on from `n + 1`
      have hnext : shortestName.go rest n (fuel + 1) = shortestName.go rest (n + 1) fuel := by
        simp only [shortestName.go, if_neg hlen]
        split
        · rename_i hparen
          cases h : shortestParams (rest.drop (n + 1)) with
          | none => rfl
          | some p₁ =>
            exact absurd ⟨hparen, p₁, (shortestParams_eq_some_iff.mp h).1⟩ hs
        · rfl
      obtain ⟨ihs, ihn⟩ := ih (n + 1) (by omega) (by omega)
      rw [hnext]
      refine ⟨fun w p => (ihs w p).trans ?_, ihn.trans ?_⟩
      · constructor
        · rintro ⟨hw, hn, hmin, hp⟩
          exact ⟨hw, by omega,
            fun w' p' hw' _ => hmin w' p' hw' (by have := hw'.length_ne hs; omega), hp⟩
        · rintro ⟨⟨p', hw⟩, hn, hmin, hp⟩
          exact ⟨⟨p', hw⟩, by have := hw.length_ne hs; omega,
            fun w' p' hw' _ => hmin w' p' hw' (by omega), hp⟩
      · exact forall_congr' fun w => forall_congr' fun p => imp_congr_right fun hw => by
          have := hw.length_ne hs; omega

/-- The name found is the shortest that a parameter text follows, with the shortest
parameter text after it: the first candidate lazy repetitions try. -/
theorem shortestName_eq_some_iff {rest w p : Bytes} :
    shortestName rest = some (w, p) ↔
      NameAndParams rest w p ∧ ∀ w' p', NameAndParams rest w' p' → LazyBefore w p w' p' := by
  rw [shortestName, (shortestName_go_spec rest _ 1 Nat.one_pos (by omega)).1 w p]
  constructor
  · rintro ⟨⟨p', hw⟩, -, hmin, hp⟩
    obtain ⟨hclose, hpmin⟩ := shortestParams_eq_some_iff.mp hp
    have hwp : NameAndParams rest w p := ⟨hw.1, hw.2.1, hclose⟩
    refine ⟨hwp, fun w' p' hw' => ?_⟩
    have hle := hmin w' p' hw' (List.length_pos_iff.mpr hw'.1)
    rcases Nat.lt_or_eq_of_le hle with hlt | heq
    · exact Or.inl hlt
    · -- the same name: its parameter text is the shortest
      have hw_eq : w' = w := by rw [hw'.eq_take, ← heq, ← hwp.eq_take]
      subst hw_eq
      exact Or.inr ⟨rfl, hpmin p' hw'.2.2⟩
  · rintro ⟨hwp, hmin⟩
    refine ⟨⟨p, hwp⟩, List.length_pos_iff.mpr hwp.1, fun w' p' hw' _ => ?_, ?_⟩
    · rcases hmin w' p' hw' with h | h <;> omega
    · refine shortestParams_eq_some_iff.mpr ⟨hwp.2.2, fun p' hp' => ?_⟩
      rcases hmin w p' ⟨hwp.1, hwp.2.1, hp'⟩ with h | h <;> omega

theorem shortestName_eq_none_iff {rest : Bytes} :
    shortestName rest = none ↔ ∀ w p, ¬ NameAndParams rest w p := by
  rw [shortestName, (shortestName_go_spec rest _ 1 Nat.one_pos (by omega)).2]
  refine forall_congr' fun w => forall_congr' fun p =>
    ⟨fun h hw => ?_, fun h hw => absurd hw h⟩
  have := h hw
  exact hw.1 (List.length_eq_zero_iff.mp (by omega))

/-! ## A match at the start of a line -/

/-- The bases a builder method's name starts with. -/
def builderBases : List Bytes := [Bytes.ofString "expect", Bytes.ofString "with"]

/-- The text a builder method's signature spans in a line. -/
def Method.signature (m : Method) : Bytes :=
  methodPrefix ++ m.base ++ m.what ++ [0x28] ++ m.params ++ methodSuffix

/-- The pattern matches at the start of `line` with the groups of `m`. -/
def Method.MatchesAt (m : Method) (line : Bytes) : Prop :=
  m.base ∈ builderBases ∧ m.what ≠ [] ∧ m.params ≠ [] ∧ m.signature <+: line

theorem Method.matchesAt_iff {m : Method} {line : Bytes} :
    m.MatchesAt line ↔ m.base ∈ builderBases ∧ methodPrefix ++ m.base <+: line ∧
      NameAndParams (line.drop (methodPrefix.length + m.base.length)) m.what m.params := by
  -- the signature splits after the base, and again after the opening parenthesis
  have hsig : m.signature <+: line ↔ methodPrefix ++ m.base <+: line ∧
      (m.what ++ [0x28]) ++ (m.params ++ methodSuffix) <+:
        line.drop (methodPrefix.length + m.base.length) := by
    rw [show m.signature = (methodPrefix ++ m.base) ++
        ((m.what ++ [0x28]) ++ (m.params ++ methodSuffix)) by simp [Method.signature],
      append_prefix_iff, List.length_append]
  have hrest : ∀ rest : Bytes, (m.what ++ [0x28]) ++ (m.params ++ methodSuffix) <+: rest ↔
      m.what ++ [0x28] <+: rest ∧ m.params ++ methodSuffix <+: rest.drop (m.what.length + 1) := by
    intro rest
    rw [append_prefix_iff, List.length_append, List.length_singleton]
  simp only [Method.MatchesAt, NameAndParams, ClosesParams, hsig, hrest]
  constructor
  · rintro ⟨hb, hw, hp, hpre, hname, hparams⟩
    exact ⟨hb, hpre, hw, hname, hp, hparams⟩
  · rintro ⟨hb, hpre, hw, hname, hp, hparams⟩
    exact ⟨hb, hw, hp, hpre, hname, hparams⟩

/-- `expect` and `with` differ in their first byte, so at most one of them starts a text. -/
theorem builderBases_exclusive {b b' l : Bytes} (hb : b ∈ builderBases) (hb' : b' ∈ builderBases)
    (h : b <+: l) (h' : b' <+: l) : b = b' := by
  have hexpect : Bytes.ofString "expect" = [0x65, 0x78, 0x70, 0x65, 0x63, 0x74] := by decide +kernel
  have hwith : Bytes.ofString "with" = [0x77, 0x69, 0x74, 0x68] := by decide +kernel
  simp only [builderBases, List.mem_cons, List.mem_nil_iff, or_false, hexpect, hwith] at hb hb'
  rcases hb with rfl | rfl <;> rcases hb' with rfl | rfl
  · rfl
  · exact absurd (List.prefix_of_prefix_length_le h' h (by decide)) (by decide)
  · exact absurd (List.prefix_of_prefix_length_le h h' (by decide)) (by decide)
  · rfl

/-- With the prefix and a base in place, the search at the start of a line is the search for
a name after them. -/
theorem methodAt_of_base {line b : Bytes} (hpre : methodPrefix <+: line) (hb : b ∈ builderBases)
    (hbp : b <+: line.drop methodPrefix.length) :
    methodAt line = (shortestName ((line.drop methodPrefix.length).drop b.length)).map
      fun x => ⟨b, x.1, x.2⟩ := by
  have hpre' : methodPrefix.isPrefixOf line = true := List.isPrefixOf_iff_prefix.mpr hpre
  have hother : ∀ b' ∈ builderBases, b' ≠ b → ¬ b' <+: line.drop methodPrefix.length :=
    fun b' hb' hne h => hne (builderBases_exclusive hb' hb h hbp)
  simp only [builderBases, List.mem_cons, List.mem_nil_iff, or_false] at hb
  rcases hb with rfl | rfl
  · have hwith := hother (Bytes.ofString "with") (by simp [builderBases]) (by decide +kernel)
    simp [methodAt, hpre', hbp, hwith]
  · have hexpect := hother (Bytes.ofString "expect") (by simp [builderBases]) (by decide +kernel)
    simp [methodAt, hpre', hbp, hexpect]

theorem methodAt_of_no_base {line : Bytes}
    (h : ∀ b ∈ builderBases, ¬ b <+: line.drop methodPrefix.length) : methodAt line = none := by
  have hexpect : (Bytes.ofString "expect").isPrefixOf (line.drop methodPrefix.length) = false :=
    Bool.eq_false_iff.mpr fun h' => h _ (by simp [builderBases]) (List.isPrefixOf_iff_prefix.mp h')
  have hwith : (Bytes.ofString "with").isPrefixOf (line.drop methodPrefix.length) = false :=
    Bool.eq_false_iff.mpr fun h' => h _ (by simp [builderBases]) (List.isPrefixOf_iff_prefix.mp h')
  simp [methodAt, hexpect, hwith]

/-- The search at the start of a line finds the first match there that lazy repetitions
try. -/
theorem methodAt_eq_some_iff {line : Bytes} {m : Method} :
    methodAt line = some m ↔ m.MatchesAt line ∧
      ∀ m' : Method, m'.MatchesAt line → LazyBefore m.what m.params m'.what m'.params := by
  by_cases hpre : methodPrefix <+: line
  · by_cases hbase : ∃ b ∈ builderBases, b <+: line.drop methodPrefix.length
    · obtain ⟨b, hb, hbp⟩ := hbase
      -- every match at the start of the line has the base `b`
      have hsame : ∀ m' : Method, m'.MatchesAt line → m'.base = b := by
        intro m' hm'
        obtain ⟨hb', hpre', -⟩ := Method.matchesAt_iff.mp hm'
        exact builderBases_exclusive hb' hb (append_prefix_iff.mp hpre').2 hbp
      have hfull : methodPrefix ++ b <+: line := append_prefix_iff.mpr ⟨hpre, hbp⟩
      rw [methodAt_of_base hpre hb hbp, List.drop_drop]
      constructor
      · intro h
        obtain ⟨⟨w, p⟩, hs, rfl⟩ := Option.map_eq_some_iff.mp h
        obtain ⟨hwp, hmin⟩ := shortestName_eq_some_iff.mp hs
        refine ⟨Method.matchesAt_iff.mpr ⟨hb, hfull, hwp⟩, fun m' hm' => ?_⟩
        obtain ⟨-, -, hwp'⟩ := Method.matchesAt_iff.mp hm'
        rw [hsame m' hm'] at hwp'
        exact hmin _ _ hwp'
      · rintro ⟨hm, hmin⟩
        obtain ⟨-, -, hwp⟩ := Method.matchesAt_iff.mp hm
        rw [hsame m hm] at hwp
        have hs : shortestName (line.drop (methodPrefix.length + b.length)) = some (m.what, m.params) :=
          shortestName_eq_some_iff.mpr ⟨hwp, fun w' p' hw' =>
            hmin ⟨b, w', p'⟩ (Method.matchesAt_iff.mpr ⟨hb, hfull, hw'⟩)⟩
        rw [hs, ← hsame m hm]
        rfl
    · have hnone := methodAt_of_no_base fun b hb hbp => hbase ⟨b, hb, hbp⟩
      refine ⟨fun h => by simp [hnone] at h, fun ⟨hm, _⟩ => absurd ?_ hbase⟩
      obtain ⟨hb, hpre', -⟩ := Method.matchesAt_iff.mp hm
      exact ⟨m.base, hb, (append_prefix_iff.mp hpre').2⟩
  · refine ⟨fun h => by simp [methodAt_eq_none line hpre] at h, fun ⟨hm, _⟩ => absurd ?_ hpre⟩
    exact (append_prefix_iff.mp (Method.matchesAt_iff.mp hm).2.1).1

theorem methodAt_eq_none_iff {line : Bytes} :
    methodAt line = none ↔ ∀ m : Method, ¬ m.MatchesAt line := by
  constructor
  · intro h m hm
    obtain ⟨hb, hfull, hwp⟩ := Method.matchesAt_iff.mp hm
    obtain ⟨hpre, hbp⟩ := append_prefix_iff.mp hfull
    rw [methodAt_of_base hpre hb hbp, Option.map_eq_none_iff, List.drop_drop] at h
    exact shortestName_eq_none_iff.mp h _ _ hwp
  · intro h
    cases hm : methodAt line with
    | none => rfl
    | some m => exact absurd (methodAt_eq_some_iff.mp hm).1 (h m)

/-! ## The first match in a line -/

/-- `m` is the match the pattern reports in `line`: it starts at some position `i`, no match
starts before `i`, and at `i` it comes first in the order of lazy repetitions. -/
def Method.IsFirstMatch (m : Method) (line : Bytes) : Prop :=
  ∃ i, (∀ j < i, ∀ m' : Method, ¬ m'.MatchesAt (line.drop j)) ∧ m.MatchesAt (line.drop i) ∧
    ∀ m' : Method, m'.MatchesAt (line.drop i) → LazyBefore m.what m.params m'.what m'.params

theorem Method.not_matchesAt_nil (m : Method) : ¬ m.MatchesAt [] := fun h => by
  have := h.2.2.2.length_le
  simp [Method.signature] at this

/-- Where no match starts at the first byte, the first match of a line is the first match of
the rest of it. -/
theorem Method.isFirstMatch_cons {m : Method} {x : UInt8} {rest : Bytes}
    (h0 : ∀ m' : Method, ¬ m'.MatchesAt (x :: rest)) :
    m.IsFirstMatch (x :: rest) ↔ m.IsFirstMatch rest := by
  constructor
  · rintro ⟨i, hbefore, hm, hmin⟩
    cases i with
    | zero => exact absurd hm (h0 m)
    | succ i =>
      exact ⟨i, fun j hj => hbefore (j + 1) (by omega), hm, hmin⟩
  · rintro ⟨i, hbefore, hm, hmin⟩
    refine ⟨i + 1, fun j hj => ?_, hm, hmin⟩
    cases j with
    | zero => exact h0
    | succ j => exact hbefore j (by omega)

/-- The search over start positions reports the first match of the pattern in the line. -/
theorem builderMethod_eq_some_iff {line : Bytes} {m : Method} :
    builderMethod line = some m ↔ m.IsFirstMatch line := by
  induction line with
  | nil =>
    simp only [builderMethod, reduceCtorEq, false_iff]
    rintro ⟨i, -, hm, -⟩
    exact Method.not_matchesAt_nil m (by simpa using hm)
  | cons x rest ih =>
    rw [builderMethod]
    cases h : methodAt (x :: rest) with
    | some m₀ =>
      -- a match starts at the first byte, so the first match starts there
      obtain ⟨hm₀, -⟩ := methodAt_eq_some_iff.mp h
      rw [Option.orElse_some, ← h, methodAt_eq_some_iff]
      constructor
      · rintro ⟨hm, hmin⟩
        exact ⟨0, fun j hj => absurd hj (Nat.not_lt_zero j), hm, hmin⟩
      · rintro ⟨i, hbefore, hm, hmin⟩
        cases i with
        | zero => exact ⟨hm, hmin⟩
        | succ i => exact absurd hm₀ (hbefore 0 (Nat.succ_pos i) m₀)
    | none =>
      rw [Option.orElse_none, ih, Method.isFirstMatch_cons (methodAt_eq_none_iff.mp h)]

theorem builderMethod_eq_none_iff {line : Bytes} :
    builderMethod line = none ↔ ∀ i (m : Method), ¬ m.MatchesAt (line.drop i) := by
  induction line with
  | nil => simp [builderMethod, Method.not_matchesAt_nil]
  | cons x rest ih =>
    rw [builderMethod]
    cases h : methodAt (x :: rest) with
    | some m₀ =>
      simp only [Option.orElse_some, reduceCtorEq, false_iff, not_forall, not_not]
      exact ⟨0, m₀, (methodAt_eq_some_iff.mp h).1⟩
    | none =>
      rw [Option.orElse_none, ih]
      constructor
      · intro hrest i
        cases i with
        | zero => exact methodAt_eq_none_iff.mp h
        | succ i => exact hrest i
      · exact fun hall i => hall (i + 1)

end ForthMachine.Cli
