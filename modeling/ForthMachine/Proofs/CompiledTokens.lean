import Mathlib
import ForthMachine.Proofs.CursorOrder

/-!
# Compiled tokens decode to what was compiled

A token cell keeps its kind in the low byte and its argument in the 24 bits above, so a kind
and an argument below `2^24` come back out of the cell unchanged (`Token.kind_make`,
`Token.arg_make`). What keeps compiled arguments below that bound:

* a call compiled by a word's name or by `recurse` carries the address of the word's body,
  `h + 8`. The word's header lies a whole header below `here` (`Cursors.Ordered`), and the
  call's own cell is allocated at `here` inside the region, which a machine never makes larger
  than `maxRegion = 2^24` bytes; so the body's address is below `2^24`;
* a primitive's number is checked against `Token.maxArg` when it is installed.

So the inner interpreter dispatches each such token as exactly the call or the primitive it was
compiled as, and a call's argument less the header's size is the callee's header again. The
main statement is `compiled_tokens_decode`.
-/

open Std.Do

set_option mvcgen.warning false

namespace ForthMachine

open ForthMachine.Text ForthMachine.Memory

/-! ## The token cell -/

namespace Token

theorem code_toNat_lt (k : TokenKind) : k.code.toNat < 2 ^ 8 := by
  cases k <;> decide

/-- Below `2^24` an argument and a kind sit side by side in a token cell. -/
theorem toNat_make (k : TokenKind) {a : UInt32} (ha : a ≤ maxArg) :
    (make k a).toNat = a.toNat * 256 + k.code.toNat := by
  have ha' : a.toNat < 2 ^ 24 := by
    have := UInt32.le_iff_toNat_le.mp ha
    simp only [maxArg, UInt32.reduceToNat] at this
    omega
  have hshift : (a <<< 8).toNat = a.toNat <<< 8 := by
    simp only [UInt32.toNat_shiftLeft, UInt32.reduceToNat, Nat.reduceMod, Nat.shiftLeft_eq]
    omega
  rw [make, UInt32.toNat_or, hshift, Nat.or_comm,
    ← Nat.shiftLeft_add_eq_or_of_lt (code_toNat_lt k), Nat.shiftLeft_eq]

theorem kindCode_make (k : TokenKind) {a : UInt32} (ha : a ≤ maxArg) :
    kindCode (make k a) = k.code := by
  apply UInt32.toNat_inj.mp
  have hk := code_toNat_lt k
  rw [kindCode, UInt32.toNat_and, toNat_make k ha,
    show (0xFF : UInt32).toNat = 2 ^ 8 - 1 from rfl, Nat.and_two_pow_sub_one_eq_mod]
  omega

/-- A token cell names the kind it was made with. -/
@[simp] theorem kind_make (k : TokenKind) {a : UInt32} (ha : a ≤ maxArg) :
    kind? (make k a) = some k := by
  rw [kind?, kindCode_make k ha, ofCode_code]

/-- A token cell carries the argument it was made with, if that fits in 24 bits. -/
@[simp] theorem arg_make (k : TokenKind) {a : UInt32} (ha : a ≤ maxArg) : arg (make k a) = a := by
  apply UInt32.toNat_inj.mp
  have hk := code_toNat_lt k
  rw [arg, UInt32.toNat_shiftRight, toNat_make k ha, show (8 : UInt32).toNat % 32 = 8 from rfl,
    Nat.shiftRight_eq_div_pow]
  omega

-- Past `2^24` the argument loses its top bits: a call of a body at `2^24 + 8` would call `8`.
example : arg (make .call 0x1000008) = 8 := by decide

end Token

/-- The inner interpreter runs a call token of a body address that fits as a call of the word
whose header lies a header's size below it. -/
theorem dispatch_call (base pos h : UInt32) (hh : h + headerSize ≤ Token.maxArg) :
    dispatch base pos (Token.make .call (h + headerSize)) = (do callWord h; pure false) := by
  simp only [dispatch, Token.kind_make _ hh, Token.arg_make _ hh, add_sub_cancel_right]

/-- The inner interpreter runs a primitive token of a number that fits as that primitive. -/
theorem dispatch_prim (base pos idx : UInt32) (hi : idx ≤ Token.maxArg) :
    dispatch base pos (Token.make .prim idx) = (do callPrim idx; pure false) := by
  simp only [dispatch, Token.kind_make _ hi, Token.arg_make _ hi]

/-! ## Where a compiled cell goes -/

/-- A cell written successfully reads back. -/
theorem Memory.Region.loadCell_of_storCell {r r' : Region} {a v : UInt32} (h : r.storCell a v = .ok r') :
    r'.loadCell a = .ok v := by
  rw [Region.storCell_eq h]
  simp only [Region.storCell, Region.checkCell, Region.check] at h
  split at h
  · cases h
  · split at h
    · cases h
    · rename_i hal hfit
      exact Region.loadCell_writeAt_self r a v (by simpa using hal) (by omega)

/-- A cell compiled successfully went to `here`, inside the region, and reads back there. -/
theorem compileCell_run_ok {m m' : Machine} {v site : UInt32}
    (h : (compileCell v).run m = .ok site m') :
    site = m.here ∧ m.here.toNat + 4 ≤ m.region.bytes.size ∧ m'.region.loadCell m.here = .ok v := by
  have h4 : (alignUp 4).toNat = 4 := by decide
  simp only [compileCell, EStateM.run_bind, allocate_run_eq, h4] at h
  by_cases hfull : m.dictLimit.toNat < m.here.toNat + 4
  · simp only [if_pos hfull] at h
    cases h
  simp only [if_neg hfull] at h
  cases hchk : m.region.check m.here 4 .slice with
  | error e => simp only [hchk] at h; cases h
  | ok u =>
    simp only [hchk, storCell_run] at h
    -- the allocation checked that the cell lies inside the region
    have hfit : m.here.toNat + 4 ≤ m.region.bytes.size := by
      simp only [Region.check] at hchk
      split at hchk
      · cases hchk
      · omega
    cases hst : (m.region.fillAt m.here.toNat 0 4).storCell m.here v with
    | error e => simp only [hst] at h; cases h
    | ok r =>
      simp only [hst, EStateM.run_pure, EStateM.Result.ok.injEq] at h
      obtain ⟨rfl, rfl⟩ := h
      exact ⟨rfl, hfit, Region.loadCell_of_storCell hst⟩

/-- A token compiled successfully went to `here`, inside the region, and reads back there. -/
theorem compileToken_run_ok {m m' : Machine} {k : TokenKind} {a site : UInt32}
    (h : (compileToken k a).run m = .ok site m') :
    site = m.here ∧ m.here.toNat + 4 ≤ m.region.bytes.size ∧
      m'.region.loadCell m.here = .ok (Token.make k a) := by
  simp only [compileToken, EStateM.run_bind] at h
  cases hc : (compileCell (Token.make k a)).run m with
  | error e u => simp only [hc] at h; cases h
  | ok site₁ m₁ =>
    obtain ⟨rfl, hfit, hload⟩ := compileCell_run_ok hc
    obtain ⟨t, ht⟩ := trace_run "+" (fun _ => Bytes.ofString ("@" ++ toString m.here.toNat ++ " ") ++
      m₁.tokenText m.here) m₁
    simp only [hc, EStateM.run_get, ht, EStateM.run_pure, EStateM.Result.ok.injEq] at h
    obtain ⟨rfl, rfl⟩ := h
    exact ⟨rfl, hfit, hload⟩

/-- The run from `m` to `m'` compiled, at `m.here`, a call of the word whose header is at `h`:
the body's address fits a token's argument, the cell at `m.here` holds the call token, and the
inner interpreter runs that token as a call of `h`. -/
def CallCompiled (m m' : Machine) (h : UInt32) : Prop :=
  h + headerSize ≤ Token.maxArg ∧
    m'.region.loadCell m.here = .ok (Token.make .call (h + headerSize)) ∧
    ∀ base pos, dispatch base pos (Token.make .call (h + headerSize)) = (do callWord h; pure false)

/-- A header a whole header below `here`, where a cell of a region of at most `maxRegion` bytes
was just compiled, has a body address that fits a token's argument. -/
theorem body_fits {m : Machine} (hsize : m.region.bytes.size ≤ maxRegion) {h : UInt32}
    (hh : h.toNat + 8 ≤ m.here.toNat) (hfit : m.here.toNat + 4 ≤ m.region.bytes.size) :
    h + headerSize ≤ Token.maxArg := by
  have hb : (h + headerSize).toNat = h.toNat + 8 := by
    have := m.here.toNat_lt
    rw [UInt32.toNat_add]
    simp only [headerSize, UInt32.reduceToNat]
    omega
  rw [UInt32.le_iff_toNat_le, hb]
  simp only [maxRegion, Token.maxArg, UInt32.reduceToNat] at hsize ⊢
  omega

/-- A call compiled at `here` of a header a whole header below it is a call of that word. -/
theorem callCompiled_of_run {m m' : Machine} (hsize : m.region.bytes.size ≤ maxRegion)
    {h site : UInt32} (hh : h.toNat + 8 ≤ m.here.toNat)
    (hrun : (compileToken .call (h + headerSize)).run m = .ok site m') : CallCompiled m m' h := by
  obtain ⟨-, hfit, hload⟩ := compileToken_run_ok hrun
  have hb := body_fits hsize hh hfit
  exact ⟨hb, hload, fun base pos => dispatch_call base pos h hb⟩

/-- The newest visible word of a name is a header of the dictionary. -/
theorem Machine.lookup_mem {m : Machine} {name : Bytes} {h : UInt32} (hl : m.lookup name = some h) :
    h ∈ m.headers :=
  List.mem_of_find?_eq_some hl

/-- Compiling a word that is not a builtin compiles a call of it, on a machine whose cursors
are in order. -/
theorem Machine.Ordered.compileWord_call {m m' : Machine} (hm : m.Ordered)
    (hsize : m.region.bytes.size ≤ maxRegion) {h : UInt32} (hh : h ∈ m.headers)
    (hb : hasFlag (m.wordFlags h) flagBuiltin = false) (hrun : (compileWord h).run m = .ok () m') :
    CallCompiled m m' h := by
  simp only [compileWord, EStateM.run_bind, wordInfo_run] at hrun
  cases hw : m.wordInfo? h with
  | error e => simp only [hw] at hrun; cases hrun
  | ok info =>
    obtain ⟨flags, n⟩ := info
    have hflags : m.wordFlags h = flags := by simp only [Machine.wordFlags, hw]
    rw [hflags] at hb
    simp only [hw, EStateM.run_get, hb] at hrun
    -- the check for words used only inside a loop either faults or lets the call through
    split at hrun
    · simp only [EStateM.run_bind, EStateM.run_throw] at hrun
      cases hrun
    · simp only [Bool.false_eq_true, if_false, EStateM.run_bind] at hrun
      cases hc : (compileToken .call (h + headerSize)).run m with
      | error e u => simp only [hc] at hrun; cases hrun
      | ok site u =>
        simp only [hc, EStateM.run_pure, EStateM.Result.ok.injEq] at hrun
        obtain ⟨-, rfl⟩ := hrun
        exact callCompiled_of_run hsize (hm.header_below hh).2 hc

/-- The open word, if any, lies a whole header below `here`, being no newer than the newest. -/
theorem Machine.Ordered.open_below {m : Machine} (hm : m.Ordered) (hw : m.openWord ≠ 0) :
    m.openWord.toNat + 8 ≤ m.here.toNat := by
  have hle := UInt32.le_iff_toNat_le.mp hm.opened
  rcases hm.latest with h0 | hbelow
  · simp only [Machine.cursors] at h0 hle
    rw [h0, UInt32.toNat_zero] at hle
    exact absurd (UInt32.toNat_inj.mp (by simpa using hle)) hw
  · simp only [Machine.cursors] at hle hbelow
    omega

/-- `recurse` compiles a call of the definition being compiled, on a machine whose cursors are
in order. -/
theorem Machine.Ordered.compileRecurse_call {m m' : Machine} (hm : m.Ordered)
    (hsize : m.region.bytes.size ≤ maxRegion) (hrun : compileRecurse.run m = .ok () m') :
    m.openWord ≠ 0 ∧ CallCompiled m m' m.openWord := by
  simp only [compileRecurse, EStateM.run_bind, EStateM.run_get] at hrun
  by_cases hw : m.openWord = 0
  · simp only [hw, if_true, EStateM.run_bind, EStateM.run_throw] at hrun
    cases hrun
  simp only [hw, if_false, EStateM.run_bind] at hrun
  cases hc : (compileToken .call (m.openWord + headerSize)).run m with
  | error e u => simp only [hc] at hrun; cases hrun
  | ok site u =>
    simp only [hc, EStateM.run_pure, EStateM.Result.ok.injEq] at hrun
    obtain ⟨-, rfl⟩ := hrun
    exact ⟨hw, callCompiled_of_run hsize (hm.open_below hw) hc⟩

/-- A primitive installs only under a number a token's argument can carry. -/
theorem installPrimitive_index {m m' : Machine} {p : Primitive}
    (hrun : (installPrimitive p).run m = .ok () m') : m.prims.size ≤ Token.maxArg.toNat := by
  -- rewritten step by step: a `simp` through the whole body is slow for the kernel to check
  rw [installPrimitive, EStateM.run_bind, EStateM.run_get] at hrun
  dsimp only at hrun
  split at hrun
  · rw [EStateM.run_bind, EStateM.run_throw] at hrun
    cases hrun
  split at hrun
  · rw [EStateM.run_bind, EStateM.run_throw] at hrun
    cases hrun
  split at hrun
  · rw [EStateM.run_bind, EStateM.run_throw] at hrun
    cases hrun
  · exact Nat.le_of_not_lt ‹_›

/-- A primitive installs only under a number a token's argument carries, so its token runs
that primitive. -/
theorem installPrimitive_prim {m m' : Machine} {p : Primitive}
    (hrun : (installPrimitive p).run m = .ok () m') :
    m.prims.size.toUInt32 ≤ Token.maxArg ∧
      ∀ base pos, dispatch base pos (Token.make .prim m.prims.size.toUInt32) =
        (do callPrim m.prims.size.toUInt32; pure false) := by
  have hi := installPrimitive_index hrun
  have hle : m.prims.size.toUInt32 ≤ Token.maxArg := by
    rw [UInt32.le_iff_toNat_le, Nat.toUInt32_eq, UInt32.toNat_ofNat']
    simp only [Token.maxArg, UInt32.reduceToNat] at hi ⊢
    omega
  exact ⟨hle, fun base pos => dispatch_prim base pos _ hle⟩

/-! ## Every token a session interprets -/

/-- Interpreting the tokens of a line keeps the cursors in order and the fixture. -/
theorem tokenSteps_keep {limit : StepLimit} {g : Fixture} {s t : Machine}
    (hst : Relation.ReflTransGen (TokenStep limit) s t) (hs : s.Ordered) (hg : g.Holds s) :
    t.Ordered ∧ g.Holds t := by
  induction hst with
  | refl => exact ⟨hs, hg⟩
  | @tail u v _ hstep ih =>
    obtain ⟨ho, hg'⟩ := ih
    obtain ⟨-, hrun⟩ := hstep
    -- reading the token moves through the line only, which neither invariant reads
    have h₁ := Cursors.ordered_run (Cursors.interpretToken_ordered limit u.readToken.1)
      (s := u.readToken.2) ho
    have h₂ := Fixture.fixed_run (Fixture.interpretToken_fixed g limit u.readToken.1)
      (s := u.readToken.2) hg'
    rw [hrun] at h₁ h₂
    exact ⟨h₁, h₂⟩

/-- Every machine a line of a session goes on to interpret a token from has its cursors in
order and a region of at most `maxRegion` bytes. -/
theorem lineTokens_fit (n : Nat) (st : Settings) (calls : List HostCall) (limit : StepLimit)
    (line : Bytes) {t : Machine}
    (ht : Relation.ReflTransGen (TokenStep limit)
      (((Machine.create n st).1.performAll calls).lineStart line) t) :
    t.readToken.2.Ordered ∧ t.readToken.2.region.bytes.size ≤ maxRegion := by
  set m := (Machine.create n st).1.performAll calls
  have ho : (m.lineStart line).Ordered := by
    simpa only [Machine.Ordered, Machine.cursors_lineStart] using performAll_ordered n st calls
  have hg : (Fixture.created n st).Holds (m.lineStart line) := by
    simpa only [Fixture.Holds, Machine.fixture_lineStart] using
      (Fixture.holds_create n st).performAll calls
  obtain ⟨hto, htg⟩ := tokenSteps_keep ht ho hg
  have hsize : t.region.bytes.size = regionSize n := congrArg Fixture.size htg.1
  exact ⟨hto, hsize ▸ regionSize_le n⟩

/-! ## The main statement -/

/-- Compiled tokens decode to exactly what they were compiled as. A kind and an argument below
`2^24` come back out of a token cell. Every machine a line of a session interprets a token from
has its dictionary's cursors in order and a region of at most `2^24` bytes; on such a machine,
compiling a word found by name that is not a builtin, or compiling `recurse`, appends a call
token whose body address `h + 8` fits, and the inner interpreter runs it as a call of `h`. A
primitive is installed only under a number that fits, and its token runs it. -/
theorem compiled_tokens_decode :
    (∀ (k : TokenKind) (a : UInt32), a ≤ Token.maxArg →
      Token.kind? (Token.make k a) = some k ∧ Token.arg (Token.make k a) = a) ∧
    (∀ (n : Nat) (st : Settings) (calls : List HostCall) (limit : StepLimit) (line : Bytes)
      (t : Machine), Relation.ReflTransGen (TokenStep limit)
        (((Machine.create n st).1.performAll calls).lineStart line) t →
      t.readToken.2.Ordered ∧ t.readToken.2.region.bytes.size ≤ maxRegion) ∧
    (∀ (m m' : Machine) (tok : Bytes) (h : UInt32), m.Ordered →
      m.region.bytes.size ≤ maxRegion → m.lookup tok = some h →
      hasFlag (m.wordFlags h) flagBuiltin = false → (compileWord h).run m = .ok () m' →
      CallCompiled m m' h) ∧
    (∀ m m' : Machine, m.Ordered → m.region.bytes.size ≤ maxRegion →
      compileRecurse.run m = .ok () m' → m.openWord ≠ 0 ∧ CallCompiled m m' m.openWord) ∧
    (∀ (m m' : Machine) (p : Primitive), (installPrimitive p).run m = .ok () m' →
      m.prims.size.toUInt32 ≤ Token.maxArg ∧
        ∀ base pos, dispatch base pos (Token.make .prim m.prims.size.toUInt32) =
          (do callPrim m.prims.size.toUInt32; pure false)) :=
  ⟨fun k _ ha => ⟨Token.kind_make k ha, Token.arg_make k ha⟩,
    fun n st calls limit line _ ht => lineTokens_fit n st calls limit line ht,
    fun _ _ _ _ hm hs hl hb hrun => hm.compileWord_call hs (Machine.lookup_mem hl) hb hrun,
    fun _ _ hm hs hrun => hm.compileRecurse_call hs hrun,
    fun _ _ _ hrun => installPrimitive_prim hrun⟩

end ForthMachine
